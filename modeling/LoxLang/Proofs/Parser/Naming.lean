import LoxLang.Parser
import LoxLang.Proofs.Parser.Reading
import LoxLang.Proofs.Scope.Parts
import LoxLang.Proofs.Words

/-!
# The names in what is read

Whatever is wrong with a text, in the trees that are read from it the names are
identifiers, so none of them is spelled `this` or `super`; and no declaration stands
as the branch of a conditional or as the body of a loop.  Trees in which a statement
was lost are no exception.
-/

namespace LoxLang

variable {S : Type}

/-- The word is none of those that stand for an object or for its superclass. -/
def IsName (word : String) : Prop := word ≠ "this" ∧ word ≠ "super"

instance (word : String) : Decidable (IsName word) := inferInstanceAs (Decidable (_ ∧ _))

theorem Token.Worded.isName {token : Token} (worded : token.Worded)
    (isIdentifier : token.kind = .identifier) : IsName token.lexeme :=
  ⟨worded.ne_this isIdentifier, worded.ne_super isIdentifier⟩

namespace Part

/-- The part declares and refers to names that are names, a keyword in it is spelled as itself, and
what it branches to declares nothing. -/
def IsOrdinary : Part S → Prop
  | .stmt (.var name _) => IsName name.lexeme
  | .stmt (.conditional _ thenBranch elseBranch) =>
      thenBranch.brought = [] ∧ ∀ branch ∈ elseBranch, branch.brought = []
  | .stmt (.loop _ body) => body.brought = []
  | .stmt (.function decl) =>
      IsName decl.name.lexeme ∧ ∀ param ∈ decl.params, IsName param.lexeme
  | .stmt (.class name _ _) => IsName name.lexeme
  | .method decl => IsName decl.name.lexeme ∧ ∀ param ∈ decl.params, IsName param.lexeme
  | .superclass parent => IsName parent.name.lexeme
  | .expr (.variable name _) => IsName name.lexeme
  | .expr (.assign name _ _) => IsName name.lexeme
  | .expr (.this keyword _) => keyword.lexeme = "this"
  | .expr (.super keyword _ _) => keyword.lexeme = "super"
  | _ => True

/-- All parts of the part are ordinary. -/
abbrev Ordinary (part : Part S) : Prop := part.Everywhere IsOrdinary

theorem Ordinary.of {part : Part S} (root : part.IsOrdinary)
    (inside : ∀ child ∈ part.children, child.Ordinary) : part.Ordinary :=
  everywhere_iff.2 ⟨root, inside⟩

theorem Ordinary.root {part : Part S} (ordinary : part.Ordinary) : part.IsOrdinary :=
  (everywhere_iff.1 ordinary).1

theorem Ordinary.inside {part child : Part S} (ordinary : part.Ordinary)
    (member : child ∈ part.children) : child.Ordinary :=
  (everywhere_iff.1 ordinary).2 child member

theorem isOrdinary_bare {part : Part S} : part.bare.IsOrdinary ↔ part.IsOrdinary := by
  rcases part with body | s | ⟨name, params, body⟩ | parent | e
  · rfl
  · cases s with
    | conditional condition thenBranch elseBranch =>
        cases elseBranch <;> simp [bare, IsOrdinary, Stmt.map, Stmt.brought_bare]
    | loop condition body => simp [bare, IsOrdinary, Stmt.map, Stmt.brought_bare]
    | function decl =>
        obtain ⟨name, params, body⟩ := decl
        simp [bare, IsOrdinary, Stmt.map, FunctionDecl.map, FunctionDecl.name,
          FunctionDecl.params]
    | _ => rfl
  · simp [bare, IsOrdinary, FunctionDecl.map, FunctionDecl.name, FunctionDecl.params]
  · rfl
  · cases e <;> rfl

theorem ordinary_bare {part : Part S} : part.bare.Ordinary ↔ part.Ordinary := by
  constructor
  · intro ordinary path inner leads
    apply isOrdinary_bare.1
    apply ordinary path
    rw [at?_bare, leads]
    rfl
  · intro ordinary path inner leads
    rw [at?_bare] at leads
    obtain ⟨found, foundThere, rfl⟩ := Option.map_eq_some_iff.1 leads
    exact isOrdinary_bare.2 (ordinary path found foundThere)

/-- What an ordinary statement declares are names. -/
theorem IsOrdinary.brought {s : Stmt S} (ordinary : (stmt s).IsOrdinary) :
    ∀ name ∈ s.brought, IsName name := by
  cases s with
  | var name _ => simpa [Stmt.brought, IsOrdinary] using ordinary
  | function decl => simpa [Stmt.brought] using ordinary.1
  | «class» name _ _ => simpa [Stmt.brought, IsOrdinary] using ordinary
  | conditional _ thenBranch elseBranch =>
      obtain ⟨thenNone, elseNone⟩ := ordinary
      cases elseBranch with
      | none => simp [Stmt.brought, thenNone]
      | some branch => simp [Stmt.brought, thenNone, elseNone branch rfl]
  | loop _ body => simp [Stmt.brought, show body.brought = [] from ordinary]
  | _ => simp [Stmt.brought]

end Part

theorem Construct.heldAt_names {params : List Token} {body : List (Stmt S)}
    (paramNames : ∀ param ∈ params, IsName param.lexeme)
    (ordinary : ∀ s ∈ body, (Part.stmt s).IsOrdinary) (index : Nat) :
    ∀ name ∈ Construct.heldAt params body index, IsName name := by
  intro name held
  rcases List.mem_append.1 held with isParam | isBrought
  · obtain ⟨param, member, rfl⟩ := List.mem_map.1 isParam
    exact paramNames param member
  · obtain ⟨s, taken, brought⟩ := List.mem_flatMap.1 isBrought
    exact (ordinary s (List.mem_of_mem_take taken)).brought name brought

/-- All parts of the expression are ordinary. -/
abbrev Expr.Ordinary (e : Expr S) : Prop := (Part.expr e).Ordinary

/-- All parts of the statement are ordinary. -/
abbrev Stmt.Ordinary (s : Stmt S) : Prop := (Part.stmt s).Ordinary

/-- The statement is ordinary and declares nothing. -/
def Stmt.OrdinaryBranch (s : Stmt S) : Prop := s.Ordinary ∧ s.brought = []

/-- All parts of the method are ordinary. -/
abbrev FunctionDecl.Ordinary (decl : FunctionDecl S) : Prop := (Part.method decl).Ordinary

theorem Stmt.Ordinary.ofFunction {decl : FunctionDecl S} (ordinary : decl.Ordinary) :
    (Stmt.function decl).Ordinary :=
  .of ordinary.root fun _ member => ordinary.inside member

theorem Stmt.Ordinary.block {body : List (Stmt S)} (inside : ∀ s ∈ body, s.Ordinary) :
    (Stmt.block body).Ordinary :=
  .of trivial (by simpa [Part.children] using inside)

theorem Stmt.OrdinaryBranch.forLoop {initializer : Option (Stmt S)}
    {condition increment : Option (Expr S)} {body : Stmt S}
    (initializerIs : ∀ first ∈ initializer, first.Ordinary)
    (conditionIs : ∀ value ∈ condition, value.Ordinary)
    (incrementIs : ∀ step ∈ increment, step.Ordinary) (bodyIs : body.OrdinaryBranch) :
    (Stmt.forLoop initializer condition increment body).OrdinaryBranch := by
  have test : (condition.getD (.literal (.bool true))).Ordinary := by
    cases condition with
    | none => exact .of trivial (by simp [Part.children])
    | some value => exact conditionIs value rfl
  have repeated : (Stmt.repeated increment body).OrdinaryBranch := by
    cases increment with
    | none => exact bodyIs
    | some step =>
        have stepIs : (Stmt.expression step).Ordinary :=
          .of trivial (by simpa [Part.children] using incrementIs step rfl)
        exact ⟨.block (by simpa using ⟨bodyIs.1, stepIs⟩), rfl⟩
  have whileLoop : (Stmt.loop (condition.getD (.literal (.bool true)))
      (Stmt.repeated increment body)).Ordinary :=
    .of repeated.2 (by simpa [Part.children] using ⟨test, repeated.1⟩)
  cases initializer with
  | none => exact ⟨whileLoop, repeated.2⟩
  | some first => exact ⟨.block (by simpa using ⟨initializerIs first rfl, whileLoop⟩), rfl⟩

namespace Parser

variable {α β : Type}

/-- All tokens ahead are spelled as their kinds demand. -/
def Cursor.Worded (cursor : Cursor) : Prop := ∀ token ∈ cursor.ahead, token.Worded

/-- Among such tokens the parser yields only results with the property, and however it ends, such
tokens are ahead. -/
def Gives (property : α → Prop) (parser : Parser α) : Prop :=
  ∀ cursor : Cursor, Cursor.Worded cursor →
    (∀ result after, parser cursor = .ok result after → property result ∧ Cursor.Worded after) ∧
    ∀ halt after, parser cursor = .error halt after → Cursor.Worded after

namespace Gives

variable {property : α → Prop} {target : β → Prop} {parser item : Parser α}

theorem mono {stronger : α → Prop} (gives : Gives stronger parser)
    (implies : ∀ result, stronger result → property result) : Gives property parser := by
  intro cursor worded
  obtain ⟨onResult, onHalt⟩ := gives cursor worded
  exact ⟨fun result after succeeded =>
    ⟨implies result (onResult result after succeeded).1, (onResult result after succeeded).2⟩,
    onHalt⟩

theorem bind {next : α → Parser β} (first : Gives property parser)
    (second : ∀ value, property value → Gives target (next value)) :
    Gives target (parser >>= next) := by
  intro cursor worded
  obtain ⟨onResult, onHalt⟩ := first cursor worded
  constructor
  · intro result after succeeded
    obtain ⟨value, middle, firstSucceeded, nextSucceeded⟩ := bind_eq_ok.1 succeeded
    obtain ⟨valueIs, middleWorded⟩ := onResult value middle firstSucceeded
    exact (second value valueIs middle middleWorded).1 result after nextSucceeded
  · intro halt after halted
    rcases bind_eq_error.1 halted with firstHalted | ⟨value, middle, firstSucceeded, nextHalted⟩
    · exact onHalt halt after firstHalted
    · obtain ⟨valueIs, middleWorded⟩ := onResult value middle firstSucceeded
      exact (second value valueIs middle middleWorded).2 halt after nextHalted

theorem pure {value : α} (valueIs : property value) : Gives property (Pure.pure value) := by
  intro cursor worded
  constructor
  · intro result after succeeded
    cases succeeded
    exact ⟨valueIs, worded⟩
  · intro halt after halted
    cases halted

theorem tooDeep : Gives property (throw .tooDeep : Parser α) := by
  intro cursor worded
  constructor
  · intro result after succeeded
    cases succeeded
  · intro halt after halted
    cases halted
    exact worded

theorem fail (error : SyntaxError) : Gives property (Parser.fail error) := by
  intro cursor worded
  constructor
  · intro result after succeeded
    cases succeeded
  · intro halt after halted
    cases halted
    exact worded

/-- A parser that looks at the cursor, or writes a complaint down, and goes on. -/
theorem looking {result : Cursor → α} {complaints : Cursor → List Complaint} :
    Gives (fun _ => True) fun cursor =>
      .ok (result cursor) { cursor with complaints := complaints cursor } := by
  intro cursor worded
  constructor
  · intro found after succeeded
    cases succeeded
    exact ⟨trivial, worded⟩
  · intro halt after halted
    cases halted

theorem peek : Gives (fun _ => True) Parser.peek := looking

theorem remaining : Gives (fun _ => True) Parser.remaining := looking

theorem complain (about : Option Token) (error : SyntaxError) :
    Gives (fun _ => True) (Parser.complain about error) := looking

theorem accept (kinds : List TokenKind) :
    Gives (fun taken => ∀ token ∈ taken, token.Worded ∧ token.kind ∈ kinds)
      (Parser.accept kinds) := by
  intro cursor worded
  unfold Parser.accept
  split
  · constructor
    · intro result after succeeded
      cases succeeded
      exact ⟨by simp, worded⟩
    · intro halt after halted
      cases halted
  · rename_i token rest ahead
    have first : token.Worded := worded token (by simp [ahead])
    have later : Cursor.Worded { cursor with ahead := rest } :=
      fun other member => worded other (by simp [ahead, member])
    split
    · rename_i wanted
      constructor
      · intro result after succeeded
        cases succeeded
        exact ⟨by simpa using ⟨first, wanted⟩, later⟩
      · intro halt after halted
        cases halted
    · constructor
      · intro result after succeeded
        cases succeeded
        exact ⟨by simp, worded⟩
      · intro halt after halted
        cases halted

theorem acceptThen {kinds : List TokenKind} {branch : Option Token → Parser β}
    (absent : Gives target (branch none))
    (present : ∀ token, token.Worded → token.kind ∈ kinds → Gives target (branch (some token))) :
    Gives target (Parser.accept kinds >>= branch) := by
  refine bind (accept kinds) fun taken takenIs => ?_
  cases taken with
  | none => exact absent
  | some token => exact present token (takenIs token rfl).1 (takenIs token rfl).2

theorem expect (kind : TokenKind) (what : String) :
    Gives (fun token => token.Worded ∧ token.kind = kind) (Parser.expect kind what) :=
  acceptThen (fail _) fun _ worded isKind => pure ⟨worded, by simpa using isKind⟩

theorem identifier (what : String) :
    Gives (fun token => IsName token.lexeme) (Parser.expect .identifier what) :=
  mono (expect _ _) fun _ tokenIs => tokenIs.1.isName tokenIs.2

theorem expectThen {kind : TokenKind} {what : String} {next : Parser β}
    (rest : Gives target next) : Gives target (Parser.expect kind what >>= fun _ => next) :=
  bind (expect kind what) fun _ _ => rest

theorem isAhead (kind : TokenKind) : Gives (fun _ => True) (Parser.isAhead kind) :=
  bind peek fun _ _ => pure trivial

theorem consed {first : α} {rest : List α} (firstIs : property first)
    (restIs : ∀ other ∈ rest, property other) : ∀ other ∈ first :: rest, property other := by
  simpa using ⟨firstIs, restIs⟩

theorem many (wanted : Token → Bool) (itemGives : Gives property item) (fuel : Nat) :
    Gives (fun results => ∀ result ∈ results, property result)
      (Parser.many wanted item fuel) := by
  induction fuel with
  | zero => exact pure (by simp)
  | succ fuel induction =>
      unfold Parser.many
      refine bind peek fun ahead _ => ?_
      split
      · refine bind itemGives fun first firstIs => ?_
        refine bind induction fun others othersAre => ?_
        exact pure (consed firstIs othersAre)
      · exact pure (by simp)

theorem itemsAfter (excess : SyntaxError) (itemGives : Gives property item) (fuel count : Nat) :
    Gives (fun results => ∀ result ∈ results, property result)
      (Parser.itemsAfter item excess fuel count) := by
  induction fuel generalizing count with
  | zero => exact pure (by simp)
  | succ fuel induction =>
      refine acceptThen (pure (by simp)) fun comma _ _ => ?_
      have oneMore : Gives (fun results => ∀ result ∈ results, property result) (do
          let next ← item
          let rest ← Parser.itemsAfter item excess fuel (count + 1)
          return next :: rest) := by
        refine bind itemGives fun next nextIs => ?_
        refine bind (induction (count + 1)) fun others othersAre => ?_
        exact pure (consed nextIs othersAre)
      dsimp only
      split
      · refine bind peek fun about _ => ?_
        exact bind (complain about excess) fun _ _ => oneMore
      · exact oneMore

theorem items (excess : SyntaxError) (itemGives : Gives property item) :
    Gives (fun results => ∀ result ∈ results, property result) (Parser.items item excess) := by
  refine bind (isAhead _) fun closes _ => ?_
  split
  · exact pure (by simp)
  · refine bind itemGives fun first firstIs => ?_
    refine bind remaining fun fuel _ => ?_
    refine bind (itemsAfter excess itemGives fuel 1) fun others othersAre => ?_
    exact pure (consed firstIs othersAre)

theorem recovering {good : Stmt S → Prop} {statement : Parser (Stmt S)}
    (gives : Gives good statement) (lost : good .lost) :
    Gives good (Parser.recovering statement) := by
  intro cursor worded
  obtain ⟨onResult, onHalt⟩ := gives cursor worded
  unfold Parser.recovering
  cases outcome : statement cursor with
  | ok inner middle =>
      constructor
      · intro result after succeeded
        cases succeeded
        exact onResult inner middle outcome
      · intro halt after halted
        cases halted
  | error halt middle =>
      have middleWorded := onHalt halt middle outcome
      cases halt with
      | syntaxError =>
          constructor
          · intro result after succeeded
            cases succeeded
            exact ⟨lost, fun token member =>
              middleWorded token ((synchronize_suffix middle.ahead).subset member)⟩
          · intro halt after halted
            cases halted
      | tooDeep =>
          constructor
          · intro result after succeeded
            cases succeeded
          · intro halt after halted
            cases halted
            exact middleWorded

section Expressions

variable {operand unary assigned nested : Parser (Expr Unit)} {kinds : List TokenKind}
  {join : Expr Unit → Token → Expr Unit → Expr Unit}

/-- The operator makes ordinary expressions of ordinary ones. -/
def Joins (join : Expr Unit → Token → Expr Unit → Expr Unit) : Prop :=
  ∀ left op right, left.Ordinary → right.Ordinary → (join left op right).Ordinary

theorem joins_binary : Joins .binary := fun left op right leftIs rightIs =>
  .of trivial (by simpa [Part.children] using ⟨leftIs, rightIs⟩)

theorem joins_logical : Joins .logical := fun left op right leftIs rightIs =>
  .of trivial (by simpa [Part.children] using ⟨leftIs, rightIs⟩)

theorem operatorsAfter (operandGives : Gives Expr.Ordinary operand) (joins : Joins join)
    (fuel : Nat) {left : Expr Unit} (leftIs : left.Ordinary) :
    Gives Expr.Ordinary (Parser.operatorsAfter operand kinds join fuel left) := by
  induction fuel generalizing left with
  | zero => exact pure leftIs
  | succ fuel induction =>
      refine acceptThen (pure leftIs) fun op _ _ => ?_
      refine bind operandGives fun right rightIs => ?_
      exact induction (joins left op right leftIs rightIs)

theorem leftAssociative (operandGives : Gives Expr.Ordinary operand) (joins : Joins join) :
    Gives Expr.Ordinary (Parser.leftAssociative operand kinds join) := by
  refine bind operandGives fun first firstIs => ?_
  refine bind remaining fun fuel _ => ?_
  exact operatorsAfter operandGives joins fuel firstIs

theorem disjunction (unaryGives : Gives Expr.Ordinary unary) :
    Gives Expr.Ordinary (Parser.disjunction unary) := by
  have product : Gives Expr.Ordinary (Parser.product unary) :=
    leftAssociative unaryGives joins_binary
  have sum : Gives Expr.Ordinary (Parser.sum unary) := leftAssociative product joins_binary
  have comparison : Gives Expr.Ordinary (Parser.comparison unary) :=
    leftAssociative sum joins_binary
  have equality : Gives Expr.Ordinary (Parser.equality unary) :=
    leftAssociative comparison joins_binary
  have conjunction : Gives Expr.Ordinary (Parser.conjunction unary) :=
    leftAssociative equality joins_logical
  exact leftAssociative conjunction joins_logical

theorem assignTo_ordinary {value target made : Expr Unit} (valueIs : value.Ordinary)
    (targetIs : target.Ordinary) (assigned : assignTo value target = some made) :
    made.Ordinary := by
  cases target with
  | «variable» name site =>
      cases assigned
      exact .of targetIs.root (by simpa [Part.children] using valueIs)
  | get object name =>
      cases assigned
      have objectIs : object.Ordinary := targetIs.inside (by simp [Part.children])
      exact .of trivial (by simpa [Part.children] using ⟨objectIs, valueIs⟩)
  | _ => cases assigned

theorem assignment (unaryGives : Gives Expr.Ordinary unary)
    (assignedGives : Gives Expr.Ordinary assigned) :
    Gives Expr.Ordinary (Parser.assignment unary assigned) := by
  refine bind (disjunction unaryGives) fun target targetIs => ?_
  refine acceptThen (pure targetIs) fun equals _ _ => ?_
  refine bind assignedGives fun value valueIs => ?_
  split
  · rename_i made assignable
    exact pure (assignTo_ordinary valueIs targetIs assignable)
  · exact bind (complain _ _) fun _ _ => pure targetIs

theorem primary (nestedGives : Gives Expr.Ordinary nested) :
    Gives Expr.Ordinary (Parser.primary nested) := by
  refine acceptThen (fail _) fun token worded _ => ?_
  have literal (value : Literal) : (Expr.literal value : Expr Unit).Ordinary :=
    .of trivial (by simp [Part.children])
  dsimp only
  split
  case h_3 isSuper =>
    have keywordIs : token.lexeme = "super" := worded.super isSuper
    refine expectThen ?_
    refine bind (expect _ _) fun method _ => ?_
    exact pure (.of keywordIs (by simp [Part.children]))
  case h_4 isThis =>
    exact pure (.of (worded.this isThis) (by simp [Part.children]))
  case h_5 isIdentifier =>
    exact pure (.of (worded.isName isIdentifier) (by simp [Part.children]))
  case h_6 =>
    refine bind nestedGives fun inner innerIs => ?_
    refine expectThen (pure ?_)
    exact .of trivial (by simpa [Part.children] using innerIs)
  all_goals exact pure (literal _)

theorem callsAfter (nestedGives : Gives Expr.Ordinary nested) (fuel : Nat) {callee : Expr Unit}
    (calleeIs : callee.Ordinary) : Gives Expr.Ordinary (Parser.callsAfter nested fuel callee) := by
  induction fuel generalizing callee with
  | zero => exact pure calleeIs
  | succ fuel induction =>
      refine acceptThen (pure calleeIs) fun token _ _ => ?_
      dsimp only
      split
      · refine bind (items _ nestedGives) fun args argsAre => ?_
        refine bind (expect _ _) fun paren _ => ?_
        exact induction (.of trivial (by simpa [Part.children] using ⟨calleeIs, argsAre⟩))
      · refine bind (expect _ _) fun name _ => ?_
        exact induction (.of trivial (by simpa [Part.children] using calleeIs))

theorem prefixed (operandGives : Gives Expr.Ordinary operand)
    (nestedGives : Gives Expr.Ordinary nested) :
    Gives Expr.Ordinary (Parser.prefixed operand nested) := by
  refine acceptThen ?_ fun op _ _ => ?_
  · refine bind (primary nestedGives) fun callee calleeIs => ?_
    refine bind remaining fun fuel _ => ?_
    exact callsAfter nestedGives fuel calleeIs
  · refine bind operandGives fun inner innerIs => ?_
    exact pure (.of trivial (by simpa [Part.children] using innerIs))

mutual

theorem expressionAt (depth : Nat) : Gives Expr.Ordinary (Parser.expressionAt depth) := by
  cases depth with
  | zero => exact tooDeep
  | succ depth => exact assignment (unaryAt depth) (expressionAt depth)

theorem unaryAt (depth : Nat) : Gives Expr.Ordinary (Parser.unaryAt depth) := by
  cases depth with
  | zero => exact tooDeep
  | succ depth => exact prefixed (unaryAt depth) (expressionAt depth)

end

end Expressions

section Statements

variable {expression : Parser (Expr Unit)} {nested inner : Parser (Stmt Unit)}

theorem blockRest (innerGives : Gives Stmt.Ordinary inner) :
    Gives (fun body => ∀ s ∈ body, s.Ordinary) (Parser.blockRest inner) := by
  refine bind remaining fun fuel _ => ?_
  refine bind (many _ innerGives fuel) fun body bodyIs => ?_
  exact expectThen (pure bodyIs)

theorem functionRest (innerGives : Gives Stmt.Ordinary inner) (noun : String) :
    Gives FunctionDecl.Ordinary (Parser.functionRest inner noun) := by
  refine bind (identifier _) fun name nameIs => expectThen ?_
  refine bind (items _ (identifier _)) fun params paramsAre => ?_
  refine expectThen (expectThen ?_)
  refine bind (blockRest innerGives) fun body bodyIs => pure ?_
  exact .of ⟨nameIs, paramsAre⟩ (by simpa [Part.children, FunctionDecl.body] using bodyIs)

theorem superclass? :
    Gives (fun parent => ∀ named ∈ parent, IsName named.name.lexeme) Parser.superclass? := by
  refine acceptThen (pure (by simp)) fun less _ _ => ?_
  refine bind (identifier _) fun name nameIs => ?_
  exact pure (by simpa using nameIs)

theorem classRest (innerGives : Gives Stmt.Ordinary inner) :
    Gives Stmt.Ordinary (Parser.classRest inner) := by
  refine bind (identifier _) fun name nameIs => ?_
  refine bind superclass? fun parent parentIs => expectThen ?_
  refine bind remaining fun fuel _ => ?_
  refine bind (many _ (functionRest innerGives "method") fuel) fun methods methodsAre => ?_
  refine expectThen (pure (.of nameIs ?_))
  intro child member
  simp only [Part.children, List.mem_append, List.mem_map, Option.mem_toList] at member
  rcases member with ⟨named, isParent, rfl⟩ | ⟨method, isMethod, rfl⟩
  · exact .of (parentIs named isParent) (by simp [Part.children])
  · exact methodsAre method isMethod

theorem initializer? (expressionGives : Gives Expr.Ordinary expression) :
    Gives (fun initializer => ∀ value ∈ initializer, value.Ordinary)
      (Parser.initializer? expression) := by
  refine acceptThen (pure (by simp)) fun equals _ _ => ?_
  refine bind expressionGives fun value valueIs => ?_
  exact pure (by simpa using valueIs)

theorem varRest (expressionGives : Gives Expr.Ordinary expression) :
    Gives Stmt.Ordinary (Parser.varRest expression) := by
  refine bind (identifier _) fun name nameIs => ?_
  refine bind (initializer? expressionGives) fun initializer initializerIs => ?_
  refine expectThen (pure ?_)
  exact .of nameIs (by simpa [Part.children] using initializerIs)

theorem expressionStatement (expressionGives : Gives Expr.Ordinary expression) :
    Gives Stmt.OrdinaryBranch (Parser.expressionStatement expression) := by
  refine bind expressionGives fun value valueIs => ?_
  refine expectThen (pure ?_)
  exact ⟨.of trivial (by simpa [Part.children] using valueIs), rfl⟩

theorem expressionUnless (expressionGives : Gives Expr.Ordinary expression) (kind : TokenKind) :
    Gives (fun found => ∀ value ∈ found, value.Ordinary)
      (Parser.expressionUnless kind expression) := by
  refine bind (isAhead kind) fun ahead _ => ?_
  split
  · exact pure (by simp)
  · refine bind expressionGives fun value valueIs => ?_
    exact pure (by simpa using valueIs)

theorem forInitializer (expressionGives : Gives Expr.Ordinary expression) :
    Gives (fun initializer => ∀ first ∈ initializer, first.Ordinary)
      (Parser.forInitializer expression) := by
  refine acceptThen ?_ fun token _ _ => ?_
  · refine bind (expressionStatement expressionGives) fun first firstIs => ?_
    exact pure (by simpa using firstIs.1)
  · dsimp only
    split
    · refine bind (varRest expressionGives) fun first firstIs => ?_
      exact pure (by simpa using firstIs)
    · exact pure (by simp)

theorem forRest (expressionGives : Gives Expr.Ordinary expression)
    (nestedGives : Gives Stmt.OrdinaryBranch nested) :
    Gives Stmt.OrdinaryBranch (Parser.forRest expression nested) := by
  refine expectThen ?_
  refine bind (forInitializer expressionGives) fun initializer initializerIs => ?_
  refine bind (expressionUnless expressionGives _) fun condition conditionIs => expectThen ?_
  refine bind (expressionUnless expressionGives _) fun increment incrementIs => expectThen ?_
  refine bind nestedGives fun body bodyIs => ?_
  exact pure (.forLoop initializerIs conditionIs incrementIs bodyIs)

theorem elseBranch? (nestedGives : Gives Stmt.OrdinaryBranch nested) :
    Gives (fun found => ∀ branch ∈ found, branch.OrdinaryBranch) (Parser.elseBranch? nested) := by
  refine acceptThen (pure (by simp)) fun otherwise _ _ => ?_
  refine bind nestedGives fun branch branchIs => ?_
  exact pure (by simpa using branchIs)

theorem ifRest (expressionGives : Gives Expr.Ordinary expression)
    (nestedGives : Gives Stmt.OrdinaryBranch nested) :
    Gives Stmt.OrdinaryBranch (Parser.ifRest expression nested) := by
  refine expectThen ?_
  refine bind expressionGives fun condition conditionIs => expectThen ?_
  refine bind nestedGives fun thenBranch thenIs => ?_
  refine bind (elseBranch? nestedGives) fun other otherIs => ?_
  refine pure ⟨.of ⟨thenIs.2, fun branch member => (otherIs branch member).2⟩ ?_, ?_⟩
  · simpa [Part.children] using
      ⟨conditionIs, thenIs.1, fun branch member => (otherIs branch member).1⟩
  · cases other with
    | none => exact thenIs.2
    | some branch => simp [Stmt.brought, thenIs.2, (otherIs branch rfl).2]

theorem printRest (expressionGives : Gives Expr.Ordinary expression) :
    Gives Stmt.OrdinaryBranch (Parser.printRest expression) := by
  refine bind expressionGives fun value valueIs => ?_
  refine expectThen (pure ?_)
  exact ⟨.of trivial (by simpa [Part.children] using valueIs), rfl⟩

theorem returnRest (expressionGives : Gives Expr.Ordinary expression) (keyword : Token) :
    Gives Stmt.OrdinaryBranch (Parser.returnRest keyword expression) := by
  refine bind (expressionUnless expressionGives _) fun value valueIs => ?_
  refine expectThen (pure ?_)
  exact ⟨.of trivial (by simpa [Part.children] using valueIs), rfl⟩

theorem whileRest (expressionGives : Gives Expr.Ordinary expression)
    (nestedGives : Gives Stmt.OrdinaryBranch nested) :
    Gives Stmt.OrdinaryBranch (Parser.whileRest expression nested) := by
  refine expectThen ?_
  refine bind expressionGives fun condition conditionIs => expectThen ?_
  refine bind nestedGives fun body bodyIs => pure ?_
  exact ⟨.of bodyIs.2 (by simpa [Part.children] using ⟨conditionIs, bodyIs.1⟩), bodyIs.2⟩

theorem statement (expressionGives : Gives Expr.Ordinary expression)
    (nestedGives : Gives Stmt.OrdinaryBranch nested) (innerGives : Gives Stmt.Ordinary inner) :
    Gives Stmt.OrdinaryBranch (Parser.statement expression nested inner) := by
  refine acceptThen (expressionStatement expressionGives) fun token _ _ => ?_
  dsimp only
  split
  case h_1 => exact forRest expressionGives nestedGives
  case h_2 => exact ifRest expressionGives nestedGives
  case h_3 => exact printRest expressionGives
  case h_4 => exact returnRest expressionGives token
  case h_5 => exact whileRest expressionGives nestedGives
  case h_6 => exact bind (blockRest innerGives) fun body bodyIs => pure ⟨.block bodyIs, rfl⟩

theorem declaration (expressionGives : Gives Expr.Ordinary expression)
    (nestedGives : Gives Stmt.OrdinaryBranch nested) (innerGives : Gives Stmt.Ordinary inner) :
    Gives Stmt.Ordinary (Parser.declaration expression nested inner) := by
  refine recovering (acceptThen (mono nestedGives fun _ branchIs => branchIs.1) fun token _ _ => ?_)
    (.of trivial (by simp [Part.children]))
  dsimp only
  split
  · exact classRest innerGives
  · exact bind (functionRest innerGives _) fun decl declIs => pure (.ofFunction declIs)
  · exact varRest expressionGives

mutual

theorem statementAt (depth : Nat) : Gives Stmt.OrdinaryBranch (Parser.statementAt depth) := by
  cases depth with
  | zero => exact tooDeep
  | succ depth => exact statement (expressionAt depth) (statementAt depth) (declarationAt depth)

theorem declarationAt (depth : Nat) : Gives Stmt.Ordinary (Parser.declarationAt depth) := by
  cases depth with
  | zero => exact tooDeep
  | succ depth => exact declaration (expressionAt depth) (statementAt depth) (declarationAt depth)

end

theorem programAt (depth : Nat) :
    Gives (fun statements => ∀ s ∈ statements, s.Ordinary) (Parser.programAt depth) := by
  refine bind remaining fun fuel _ => ?_
  exact many _ (declarationAt depth) fuel

end Statements

end Gives

end Parser

/-- Whatever is read from the tokens of a text is ordinary. -/
theorem parseWithin_ordinary {depth : Nat} {text : String} {statements : List (Stmt Unit)}
    (read : (parseWithin depth (TokenStream.ofText text).tokens).statements = some statements) :
    ∀ s ∈ statements, s.Ordinary := by
  have worded : Parser.Cursor.Worded ⟨(TokenStream.ofText text).tokens, []⟩ :=
    fun _ member => TokenStream.worded member
  unfold parseWithin at read
  split at read
  · rename_i found after succeeded
    cases read
    exact ((Parser.Gives.programAt depth _ worded).1 _ _ succeeded).1
  · cases read

end LoxLang
