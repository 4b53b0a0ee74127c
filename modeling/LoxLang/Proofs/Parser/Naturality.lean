import LoxLang.Parser
import LoxLang.Proofs.TreeMap

/-!
# Parsing is natural

A parser looks at the kinds and the literals of tokens, and at nothing else.  If the
tokens are mapped by a function that keeps these, then the trees are mapped by it,
and so are the tokens of the complaints.
-/

namespace LoxLang

/-- The function keeps what a parser looks at. -/
structure KeepsKinds (f : Token → Token) : Prop where
  kind : ∀ token, (f token).kind = token.kind
  literal : ∀ token, (f token).literal? = token.literal?

/-- The complaint about the token that a function makes of its token. -/
def Complaint.map (f : Token → Token) (complaint : Complaint) : Complaint :=
  ⟨complaint.about.map f, complaint.error⟩

/-- The cursor with its tokens mapped. -/
def Cursor.map (f : Token → Token) (cursor : Cursor) : Cursor :=
  ⟨cursor.ahead.map f, cursor.complaints.map (Complaint.map f)⟩

namespace Parser

variable {α β γ δ : Type}

/-- An end with its tokens and its result mapped. -/
def mapEnd (f : Token → Token) (g : α → β) :
    EStateM.Result Halt Cursor α → EStateM.Result Halt Cursor β
  | .ok result after => .ok (g result) (after.map f)
  | .error halt after => .error halt (after.map f)

/-- From mapped tokens the second parser comes to the end of the first one, mapped. -/
def Natural (f : Token → Token) (g : α → β) (parser : Parser α) (twin : Parser β) : Prop :=
  ∀ cursor : Cursor, twin (cursor.map f) = mapEnd f g (parser cursor)

namespace Natural

variable {f : Token → Token} {g : α → β} {h : γ → δ} {parser : Parser α} {twin : Parser β}

theorem pure (result : α) : Natural f g (Pure.pure result) (Pure.pure (g result)) :=
  fun _ => rfl

/-- A result that is the mapped one in other words. -/
theorem pureOf {result : α} {other : β} (same : other = g result) :
    Natural f g (Pure.pure result) (Pure.pure other) := by
  subst same
  exact pure result

theorem throw (halt : Halt) : Natural f g (throw halt) (throw halt) :=
  fun _ => rfl

theorem bind {next : α → Parser γ} {nextTwin : β → Parser δ} (first : Natural f g parser twin)
    (second : ∀ result, Natural f h (next result) (nextTwin (g result))) :
    Natural f h (parser >>= next) (twin >>= nextTwin) := by
  intro cursor
  have ends := first cursor
  show EStateM.bind twin nextTwin (cursor.map f) = mapEnd f h (EStateM.bind parser next cursor)
  unfold EStateM.bind
  rw [ends]
  cases parser cursor with
  | ok result after => exact second result after
  | error halt after => rfl

theorem complain (about : Option Token) (error : SyntaxError) :
    Natural f id (Parser.complain about error) (Parser.complain (about.map f) error) :=
  fun _ => rfl

theorem fail (error : SyntaxError) : Natural f g (Parser.fail error) (Parser.fail error) := by
  intro cursor
  simp only [Parser.fail, mapEnd, Cursor.map, Complaint.map, List.map_cons, List.head?_map]

theorem remaining : Natural f id Parser.remaining Parser.remaining := by
  intro cursor
  simp only [Parser.remaining, mapEnd, Cursor.map, List.length_map, id_eq]

theorem peek : Natural f (Option.map f) Parser.peek Parser.peek := by
  intro cursor
  simp only [Parser.peek, mapEnd, Cursor.map, List.head?_map]

theorem accept (keeps : KeepsKinds f) (kinds : List TokenKind) :
    Natural f (Option.map f) (Parser.accept kinds) (Parser.accept kinds) := by
  intro cursor
  obtain ⟨ahead, complaints⟩ := cursor
  cases ahead with
  | nil => rfl
  | cons token rest =>
      simp only [Parser.accept, Cursor.map, List.map_cons, keeps.kind]
      split <;> rfl

theorem acceptThen (keeps : KeepsKinds f) {kinds : List TokenKind}
    {branch : Option Token → Parser γ} {branchTwin : Option Token → Parser δ}
    (absent : Natural f h (branch none) (branchTwin none))
    (present : ∀ token, Natural f h (branch (some token)) (branchTwin (some (f token)))) :
    Natural f h (Parser.accept kinds >>= branch) (Parser.accept kinds >>= branchTwin) := by
  apply bind (accept keeps kinds)
  intro taken
  cases taken with
  | none => exact absent
  | some token => exact present token

theorem expect (keeps : KeepsKinds f) (kind : TokenKind) (what : String) :
    Natural f f (Parser.expect kind what) (Parser.expect kind what) := by
  refine acceptThen keeps ?_ ?_
  · exact fail _
  · exact fun token => pure token

theorem expectThen (keeps : KeepsKinds f) {kind : TokenKind} {what : String} {next : Parser γ}
    {nextTwin : Parser δ} (rest : Natural f h next nextTwin) :
    Natural f h (Parser.expect kind what >>= fun _ => next)
      (Parser.expect kind what >>= fun _ => nextTwin) :=
  bind (expect keeps kind what) fun _ => rest

theorem isAhead (keeps : KeepsKinds f) (kind : TokenKind) :
    Natural f id (Parser.isAhead kind) (Parser.isAhead kind) := by
  apply bind peek
  intro token
  apply pureOf
  cases token with
  | none => rfl
  | some token => simp only [Option.map_some, Option.any_some, keeps.kind, id_eq]

theorem many {item : Parser α} {itemTwin : Parser β} {wanted : Token → Bool}
    (same : ∀ token, wanted (f token) = wanted token) (items : Natural f g item itemTwin)
    (fuel : Nat) :
    Natural f (List.map g) (Parser.many wanted item fuel)
      (Parser.many wanted itemTwin fuel) := by
  induction fuel with
  | zero => exact pure []
  | succ fuel induction =>
      apply bind peek
      intro ahead
      have sameAhead : (ahead.map f).any wanted = ahead.any wanted := by
        cases ahead with
        | none => rfl
        | some token => exact same token
      rw [sameAhead]
      split
      · apply bind items
        intro first
        apply bind induction
        exact fun rest => pure (first :: rest)
      · exact pure []

theorem itemsAfter {item : Parser α} {itemTwin : Parser β} (keeps : KeepsKinds f)
    (excess : SyntaxError) (items : Natural f g item itemTwin) (fuel count : Nat) :
    Natural f (List.map g) (Parser.itemsAfter item excess fuel count)
      (Parser.itemsAfter itemTwin excess fuel count) := by
  induction fuel generalizing count with
  | zero => exact pure []
  | succ fuel induction =>
      have next : Natural f (List.map g)
          (do
            let next ← item
            let rest ← Parser.itemsAfter item excess fuel (count + 1)
            return next :: rest)
          (do
            let next ← itemTwin
            let rest ← Parser.itemsAfter itemTwin excess fuel (count + 1)
            return next :: rest) := by
        apply bind items
        intro first
        apply bind (induction (count + 1))
        exact fun rest => pure (first :: rest)
      refine acceptThen keeps ?_ ?_
      · exact pure []
      · intro comma
        dsimp only
        split
        · apply bind peek
          intro about
          exact bind (complain about excess) fun _ => next
        · exact next

theorem items {item : Parser α} {itemTwin : Parser β} (keeps : KeepsKinds f)
    (excess : SyntaxError) (each : Natural f g item itemTwin) :
    Natural f (List.map g) (Parser.items item excess) (Parser.items itemTwin excess) := by
  apply bind (isAhead keeps .rightParen)
  intro closed
  rw [id_eq]
  split
  · exact pure []
  · apply bind each
    intro first
    apply bind remaining
    intro fuel
    apply bind (itemsAfter keeps excess each fuel 1)
    exact fun rest => pure (first :: rest)

end Natural

theorem skipPast_map {f : Token → Token} (keeps : KeepsKinds f) (passed : Token)
    (tokens : List Token) :
    skipPast (f passed) (tokens.map f) = (skipPast passed tokens).map f := by
  induction tokens generalizing passed with
  | nil => rfl
  | cons token rest induction =>
      simp only [List.map_cons, skipPast, keeps.kind, induction]
      split <;> rfl

theorem synchronize_map {f : Token → Token} (keeps : KeepsKinds f) (tokens : List Token) :
    synchronize (tokens.map f) = (synchronize tokens).map f := by
  cases tokens with
  | nil => rfl
  | cons offender rest => exact skipPast_map keeps offender rest

theorem Natural.recovering {f : Token → Token} (keeps : KeepsKinds f)
    {statement : Parser (Stmt Unit)} (read : Natural f (Stmt.map f id) statement statement) :
    Natural f (Stmt.map f id) (Parser.recovering statement) (Parser.recovering statement) := by
  intro cursor
  have ends := read cursor
  unfold Parser.recovering
  rw [ends]
  cases statement cursor with
  | ok result after => rfl
  | error halt after =>
      cases halt with
      | tooDeep => rfl
      | syntaxError =>
          simp only [mapEnd, Cursor.map, synchronize_map keeps, Stmt.map]

namespace Natural

variable {f : Token → Token} (keeps : KeepsKinds f)

include keeps

section Expressions

variable {operand nested assigned : Parser (Expr Unit)} {kinds : List TokenKind}
  {join : Expr Unit → Token → Expr Unit → Expr Unit}

theorem operatorsAfter (operands : Natural f (Expr.map f id) operand operand)
    (joins : ∀ left op right,
      (join left op right).map f id = join (left.map f id) (f op) (right.map f id))
    (fuel : Nat) (left : Expr Unit) :
    Natural f (Expr.map f id) (Parser.operatorsAfter operand kinds join fuel left)
      (Parser.operatorsAfter operand kinds join fuel (left.map f id)) := by
  induction fuel generalizing left with
  | zero => exact pure left
  | succ fuel induction =>
      refine acceptThen keeps ?_ ?_
      · exact pure left
      · intro op
        apply bind operands
        intro right
        rw [← joins]
        exact induction (join left op right)

theorem leftAssociative (operands : Natural f (Expr.map f id) operand operand)
    (joins : ∀ left op right,
      (join left op right).map f id = join (left.map f id) (f op) (right.map f id)) :
    Natural f (Expr.map f id) (Parser.leftAssociative operand kinds join)
      (Parser.leftAssociative operand kinds join) := by
  apply bind operands
  intro first
  apply bind remaining
  intro fuel
  exact operatorsAfter keeps operands joins fuel first

theorem disjunction (operands : Natural f (Expr.map f id) operand operand) :
    Natural f (Expr.map f id) (Parser.disjunction operand) (Parser.disjunction operand) := by
  have binary (left : Expr Unit) (op : Token) (right : Expr Unit) :
      (Expr.binary left op right).map f id =
        .binary (left.map f id) (f op) (right.map f id) := by
    rw [Expr.map]
  have logical (left : Expr Unit) (op : Token) (right : Expr Unit) :
      (Expr.logical left op right).map f id =
        .logical (left.map f id) (f op) (right.map f id) := by
    rw [Expr.map]
  have products : Natural f (Expr.map f id) (product operand) (product operand) :=
    leftAssociative keeps operands binary
  have sums : Natural f (Expr.map f id) (sum operand) (sum operand) :=
    leftAssociative keeps products binary
  have comparisons : Natural f (Expr.map f id) (comparison operand) (comparison operand) :=
    leftAssociative keeps sums binary
  have equalities : Natural f (Expr.map f id) (equality operand) (equality operand) :=
    leftAssociative keeps comparisons binary
  have conjunctions : Natural f (Expr.map f id) (conjunction operand) (conjunction operand) :=
    leftAssociative keeps equalities logical
  exact leftAssociative keeps conjunctions logical

omit keeps in
theorem assignTo_map (value target : Expr Unit) :
    assignTo (value.map f id) (target.map f id) =
      (assignTo value target).map (Expr.map f id) := by
  cases target <;> simp [assignTo, Expr.map]

theorem assignment (operands : Natural f (Expr.map f id) operand operand)
    (values : Natural f (Expr.map f id) assigned assigned) :
    Natural f (Expr.map f id) (Parser.assignment operand assigned)
      (Parser.assignment operand assigned) := by
  apply bind (disjunction keeps operands)
  intro target
  refine acceptThen keeps ?_ ?_
  · exact pure target
  · intro equals
    apply bind values
    intro value
    rw [assignTo_map]
    cases assignTo value target with
    | none =>
        apply bind (complain (some equals) .invalidAssignmentTarget)
        exact fun _ => pure target
    | some expr => exact pure expr

theorem primary (inner : Natural f (Expr.map f id) nested nested) :
    Natural f (Expr.map f id) (Parser.primary nested) (Parser.primary nested) := by
  refine acceptThen keeps ?_ ?_
  · exact fail _
  · intro token
    dsimp only
    rw [keeps.kind, keeps.literal]
    split
    · exact pureOf (by rw [Expr.map])
    · exact pureOf (by rw [Expr.map])
    · apply expectThen keeps
      apply bind (expect keeps _ _)
      exact fun method => pureOf (by rw [Expr.map, id_eq])
    · exact pureOf (by rw [Expr.map, id_eq])
    · exact pureOf (by rw [Expr.map, id_eq])
    · apply bind inner
      intro e
      apply expectThen keeps
      exact pureOf (by rw [Expr.map])
    · exact pureOf (by rw [Expr.map])

theorem callsAfter (inner : Natural f (Expr.map f id) nested nested) (fuel : Nat)
    (callee : Expr Unit) :
    Natural f (Expr.map f id) (Parser.callsAfter nested fuel callee)
      (Parser.callsAfter nested fuel (callee.map f id)) := by
  induction fuel generalizing callee with
  | zero => exact pure callee
  | succ fuel induction =>
      refine acceptThen keeps ?_ ?_
      · exact pure callee
      · intro token
        dsimp only
        rw [keeps.kind]
        split
        · apply bind (items keeps _ inner)
          intro args
          apply bind (expect keeps _ _)
          intro paren
          have next := induction (.call callee paren args)
          rwa [Expr.map, Expr.mapEach_eq_map] at next
        · apply bind (expect keeps _ _)
          intro name
          have next := induction (.get callee name)
          rwa [Expr.map] at next

theorem call (inner : Natural f (Expr.map f id) nested nested) :
    Natural f (Expr.map f id) (Parser.call nested) (Parser.call nested) := by
  apply bind (primary keeps inner)
  intro callee
  apply bind remaining
  intro fuel
  exact callsAfter keeps inner fuel callee

theorem prefixed (operands : Natural f (Expr.map f id) operand operand)
    (inner : Natural f (Expr.map f id) nested nested) :
    Natural f (Expr.map f id) (Parser.prefixed operand nested)
      (Parser.prefixed operand nested) := by
  refine acceptThen keeps ?_ ?_
  · exact call keeps inner
  · intro op
    apply bind operands
    exact fun e => pureOf (by rw [Expr.map])

theorem expressions (depth : Nat) :
    Natural f (Expr.map f id) (expressionAt depth) (expressionAt depth) ∧
      Natural f (Expr.map f id) (unaryAt depth) (unaryAt depth) := by
  induction depth with
  | zero => exact ⟨throw .tooDeep, throw .tooDeep⟩
  | succ depth induction =>
      obtain ⟨expressionNatural, unaryNatural⟩ := induction
      constructor
      · rw [expressionAt]
        exact assignment keeps unaryNatural expressionNatural
      · rw [unaryAt]
        exact prefixed keeps unaryNatural expressionNatural

end Expressions

section Statements

variable {expression : Parser (Expr Unit)} {nested inner : Parser (Stmt Unit)}

theorem blockRest (declarations : Natural f (Stmt.map f id) inner inner) :
    Natural f (List.map (Stmt.map f id)) (Parser.blockRest inner) (Parser.blockRest inner) := by
  apply bind remaining
  intro fuel
  apply bind (many (fun token => by simp only [keeps.kind]) declarations fuel)
  intro body
  apply expectThen keeps
  exact pure body

theorem functionRest (declarations : Natural f (Stmt.map f id) inner inner) (noun : String) :
    Natural f (FunctionDecl.map f id) (Parser.functionRest inner noun)
      (Parser.functionRest inner noun) := by
  apply bind (expect keeps _ _)
  intro name
  apply expectThen keeps
  apply bind (items keeps _ (expect keeps _ _))
  intro params
  apply expectThen keeps
  apply expectThen keeps
  apply bind (blockRest keeps declarations)
  exact fun body => pureOf (by rw [FunctionDecl.map, Stmt.mapAll_eq_map])

theorem superclass? :
    Natural f (Option.map (Superclass.map f id)) Parser.superclass? Parser.superclass? := by
  refine acceptThen keeps ?_ ?_
  · exact pure none
  · intro less
    apply bind (expect keeps _ _)
    exact fun name => pureOf rfl

theorem classRest (declarations : Natural f (Stmt.map f id) inner inner) :
    Natural f (Stmt.map f id) (Parser.classRest inner) (Parser.classRest inner) := by
  apply bind (expect keeps _ _)
  intro name
  apply bind (superclass? keeps)
  intro parent
  apply expectThen keeps
  apply bind remaining
  intro fuel
  apply bind (many (fun token => by simp only [keeps.kind])
    (functionRest keeps declarations "method") fuel)
  intro methods
  apply expectThen keeps
  exact pureOf (by rw [Stmt.map, FunctionDecl.mapAll_eq_map])

theorem initializer? (values : Natural f (Expr.map f id) expression expression) :
    Natural f (Option.map (Expr.map f id)) (Parser.initializer? expression)
      (Parser.initializer? expression) := by
  refine acceptThen keeps ?_ ?_
  · exact pure none
  · intro equals
    apply bind values
    exact fun value => pure (some value)

theorem varRest (values : Natural f (Expr.map f id) expression expression) :
    Natural f (Stmt.map f id) (Parser.varRest expression) (Parser.varRest expression) := by
  apply bind (expect keeps _ _)
  intro name
  apply bind (initializer? keeps values)
  intro initializer
  apply expectThen keeps
  exact pureOf (by rw [Stmt.map])

theorem expressionStatement (values : Natural f (Expr.map f id) expression expression) :
    Natural f (Stmt.map f id) (Parser.expressionStatement expression)
      (Parser.expressionStatement expression) := by
  apply bind values
  intro value
  apply expectThen keeps
  exact pureOf (by rw [Stmt.map])

theorem expressionUnless (kind : TokenKind)
    (values : Natural f (Expr.map f id) expression expression) :
    Natural f (Option.map (Expr.map f id)) (Parser.expressionUnless kind expression)
      (Parser.expressionUnless kind expression) := by
  apply bind (isAhead keeps kind)
  intro absent
  rw [id_eq]
  split
  · exact pure none
  · apply bind values
    exact fun value => pure (some value)

theorem forInitializer (values : Natural f (Expr.map f id) expression expression) :
    Natural f (Option.map (Stmt.map f id)) (Parser.forInitializer expression)
      (Parser.forInitializer expression) := by
  refine acceptThen keeps ?_ ?_
  · apply bind (expressionStatement keeps values)
    exact fun first => pure (some first)
  · intro token
    dsimp only
    rw [keeps.kind]
    split
    · apply bind (varRest keeps values)
      exact fun first => pure (some first)
    · exact pure none

omit keeps in
/-- A loop with `for` stands for the same loop with its parts mapped. -/
theorem forLoop_map (initializer : Option (Stmt Unit)) (condition increment : Option (Expr Unit))
    (body : Stmt Unit) :
    (Stmt.forLoop initializer condition increment body).map f id =
      Stmt.forLoop (initializer.map (Stmt.map f id)) (condition.map (Expr.map f id))
        (increment.map (Expr.map f id)) (body.map f id) := by
  cases initializer <;> cases condition <;> cases increment <;>
    simp [Stmt.forLoop, Stmt.repeated, Stmt.map, Stmt.mapAll_eq_map, Expr.map]

theorem forRest (values : Natural f (Expr.map f id) expression expression)
    (statements : Natural f (Stmt.map f id) nested nested) :
    Natural f (Stmt.map f id) (Parser.forRest expression nested)
      (Parser.forRest expression nested) := by
  apply expectThen keeps
  apply bind (forInitializer keeps values)
  intro initializer
  apply bind (expressionUnless keeps _ values)
  intro condition
  apply expectThen keeps
  apply bind (expressionUnless keeps _ values)
  intro increment
  apply expectThen keeps
  apply bind statements
  exact fun body => pureOf (forLoop_map initializer condition increment body).symm

theorem elseBranch? (statements : Natural f (Stmt.map f id) nested nested) :
    Natural f (Option.map (Stmt.map f id)) (Parser.elseBranch? nested)
      (Parser.elseBranch? nested) := by
  refine acceptThen keeps ?_ ?_
  · exact pure none
  · intro keyword
    apply bind statements
    exact fun branch => pure (some branch)

theorem ifRest (values : Natural f (Expr.map f id) expression expression)
    (statements : Natural f (Stmt.map f id) nested nested) :
    Natural f (Stmt.map f id) (Parser.ifRest expression nested)
      (Parser.ifRest expression nested) := by
  apply expectThen keeps
  apply bind values
  intro condition
  apply expectThen keeps
  apply bind statements
  intro thenBranch
  apply bind (elseBranch? keeps statements)
  intro elseBranch
  cases elseBranch with
  | none => exact pureOf (by rw [Stmt.map, Option.map_none])
  | some branch => exact pureOf (by rw [Stmt.map, Option.map_some])

theorem printRest (values : Natural f (Expr.map f id) expression expression) :
    Natural f (Stmt.map f id) (Parser.printRest expression) (Parser.printRest expression) := by
  apply bind values
  intro value
  apply expectThen keeps
  exact pureOf (by rw [Stmt.map])

theorem returnRest (keyword : Token) (values : Natural f (Expr.map f id) expression expression) :
    Natural f (Stmt.map f id) (Parser.returnRest keyword expression)
      (Parser.returnRest (f keyword) expression) := by
  apply bind (expressionUnless keeps _ values)
  intro value
  apply expectThen keeps
  exact pureOf (by rw [Stmt.map])

theorem whileRest (values : Natural f (Expr.map f id) expression expression)
    (statements : Natural f (Stmt.map f id) nested nested) :
    Natural f (Stmt.map f id) (Parser.whileRest expression nested)
      (Parser.whileRest expression nested) := by
  apply expectThen keeps
  apply bind values
  intro condition
  apply expectThen keeps
  apply bind statements
  exact fun body => pureOf (by rw [Stmt.map])

theorem statement (values : Natural f (Expr.map f id) expression expression)
    (statements : Natural f (Stmt.map f id) nested nested)
    (declarations : Natural f (Stmt.map f id) inner inner) :
    Natural f (Stmt.map f id) (Parser.statement expression nested inner)
      (Parser.statement expression nested inner) := by
  refine acceptThen keeps ?_ ?_
  · exact expressionStatement keeps values
  · intro token
    dsimp only
    rw [keeps.kind]
    split
    · exact forRest keeps values statements
    · exact ifRest keeps values statements
    · exact printRest keeps values
    · exact returnRest keeps token values
    · exact whileRest keeps values statements
    · apply bind (blockRest keeps declarations)
      exact fun body => pureOf (by rw [Stmt.map, Stmt.mapAll_eq_map])

theorem declaration (values : Natural f (Expr.map f id) expression expression)
    (statements : Natural f (Stmt.map f id) nested nested)
    (declarations : Natural f (Stmt.map f id) inner inner) :
    Natural f (Stmt.map f id) (Parser.declaration expression nested inner)
      (Parser.declaration expression nested inner) := by
  apply recovering keeps
  refine acceptThen keeps ?_ ?_
  · exact statements
  · intro token
    dsimp only
    rw [keeps.kind]
    split
    · exact classRest keeps declarations
    · apply bind (functionRest keeps declarations "function")
      exact fun decl => pureOf (by rw [Stmt.map])
    · exact varRest keeps values

theorem statements (depth : Nat) :
    Natural f (Stmt.map f id) (statementAt depth) (statementAt depth) ∧
      Natural f (Stmt.map f id) (declarationAt depth) (declarationAt depth) := by
  induction depth with
  | zero => exact ⟨throw .tooDeep, throw .tooDeep⟩
  | succ depth induction =>
      obtain ⟨statementNatural, declarationNatural⟩ := induction
      have values := (expressions keeps depth).1
      constructor
      · rw [statementAt]
        exact statement keeps values statementNatural declarationNatural
      · rw [declarationAt]
        exact declaration keeps values statementNatural declarationNatural

theorem programAt (depth : Nat) :
    Natural f (List.map (Stmt.map f id)) (Parser.programAt depth) (Parser.programAt depth) := by
  apply bind remaining
  intro fuel
  exact many (f := f) (fun _ => rfl) (statements keeps depth).2 fuel

end Statements

end Natural

end Parser

/-- What the parser makes of the tokens, with its tokens mapped. -/
def Parse.map (f : Token → Token) (result : Parse) : Parse :=
  ⟨result.statements.map (List.map (Stmt.map f id)), result.complaints.map (Complaint.map f)⟩

/-- The trees and the complaints that come of mapped tokens are those that come of the tokens,
mapped. -/
theorem parseWithin_map {f : Token → Token} (keeps : KeepsKinds f) (depth : Nat)
    (tokens : List Token) :
    parseWithin depth (tokens.map f) = (parseWithin depth tokens).map f := by
  have ends := Parser.Natural.programAt keeps depth ⟨tokens, []⟩
  have start : (⟨tokens, []⟩ : Cursor).map f = ⟨tokens.map f, []⟩ := rfl
  rw [start] at ends
  unfold parseWithin
  rw [ends]
  cases Parser.programAt depth ⟨tokens, []⟩ <;>
    simp [Parser.mapEnd, Parse.map, Cursor.map]

/-- A complaint about a token is about one of those that were read: if another token took its place
everywhere, then so it would in the complaint. -/
theorem about_mem_of_complaint {depth : Nat} {tokens : List Token} {complaint : Complaint}
    {token : Token} (among : complaint ∈ (parseWithin depth tokens).complaints)
    (about : complaint.about = some token) : token ∈ tokens := by
  refine Decidable.byContradiction fun absent => ?_
  let move (other : Token) : Token :=
    if other = token then { other with spot := other.spot + 1 } else other
  have keeps : KeepsKinds move := by
    constructor <;> intro other <;> dsimp only [move] <;> split <;> rfl
  have sameTokens : tokens.map move = tokens := by
    refine (List.map_congr_left fun other member => ?_).trans (List.map_id tokens)
    have another : other ≠ token := fun same => absent (same ▸ member)
    exact if_neg another
  have natural := parseWithin_map keeps depth tokens
  rw [sameTokens] at natural
  have sameComplaints : (parseWithin depth tokens).complaints.map (Complaint.map move) =
      (parseWithin depth tokens).complaints.map id := by
    rw [List.map_id]
    exact (congrArg Parse.complaints natural).symm
  have same : complaint.map move = complaint :=
    List.map_inj_left.1 sameComplaints complaint among
  have sameAbout : some (move token) = some token := by
    have mapped := congrArg Complaint.about same
    rwa [Complaint.map, about] at mapped
  have sameSpot := congrArg (·.spot) (Option.some.inj sameAbout)
  simp [move] at sameSpot

end LoxLang
