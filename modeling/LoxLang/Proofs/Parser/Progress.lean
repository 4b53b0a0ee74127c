import LoxLang.Proofs.Parser.Attempts
import LoxLang.Proofs.Parser.StatementReading

/-!
# What a parser takes

Every expression takes at least one token, and every statement a semicolon or an
opening brace.  A declaration that is lost takes at least the token that was
complained about.  So the loops over declarations go on.
-/

namespace LoxLang.Parser

variable {α β : Type}

/-- The token ahead is taken, or nothing is. -/
theorem accept_eq_ok {kinds : List TokenKind} {cursor after : Cursor} {found : Option Token}
    (accepted : accept kinds cursor = .ok found after) :
    (∃ token, found = some token ∧ token.kind ∈ kinds ∧ cursor.ahead = token :: after.ahead ∧
        after.complaints = cursor.complaints) ∨
      (found = none ∧ after = cursor ∧ ∀ token ∈ cursor.ahead.head?, token.kind ∉ kinds) := by
  obtain ⟨ahead, complaints⟩ := cursor
  unfold accept at accepted
  cases ahead with
  | nil =>
      cases accepted
      exact .inr ⟨rfl, rfl, by simp⟩
  | cons token rest =>
      by_cases isAccepted : token.kind ∈ kinds
      · simp only [isAccepted, if_true] at accepted
        cases accepted
        exact .inl ⟨token, rfl, isAccepted, rfl, rfl⟩
      · simp only [isAccepted, if_false] at accepted
        cases accepted
        exact .inr ⟨rfl, rfl, by simpa using isAccepted⟩

/-- A token of a wanted kind is taken. -/
theorem accept_cons {kinds : List TokenKind} {token : Token} (isWanted : token.kind ∈ kinds)
    (rest : List Token) (complaints : List Complaint) :
    accept kinds ⟨token :: rest, complaints⟩ = .ok (some token) ⟨rest, complaints⟩ :=
  if_pos isWanted

/-- Any other token stays ahead. -/
theorem accept_none {kinds : List TokenKind} {cursor : Cursor}
    (unwanted : ∀ token ∈ cursor.ahead.head?, token.kind ∉ kinds) :
    accept kinds cursor = .ok none cursor := by
  obtain ⟨ahead, complaints⟩ := cursor
  cases ahead with
  | nil => rfl
  | cons token rest => exact if_neg (unwanted token rfl)

/-- Whatever a parser does, it only takes tokens off those ahead, and it only adds complaints. -/
abbrev Onward (parser : Parser α) : Prop := Reads parser fun _ _ _ => True

theorem Reads.onward {parser : Parser α} {relation : List Token → α → List Token → Prop}
    (reads : Reads parser relation) : Onward parser :=
  reads.mono fun _ _ _ _ => trivial

namespace Onward

variable {parser : Parser α} {next : α → Parser β}

theorem bind (first : Onward parser) (second : ∀ value, Onward (next value)) :
    Onward (parser >>= next) :=
  Reads.bind first fun value _ => (second value).mono fun _ _ _ _ _ => trivial

theorem pure (value : α) : Onward (Pure.pure value : Parser α) :=
  Reads.pure fun _ => trivial

theorem acceptThen {kinds : List TokenKind} {branch : Option Token → Parser β}
    (absent : Onward (branch none))
    (present : ∀ token, token.kind ∈ kinds → Onward (branch (some token))) :
    Onward (accept kinds >>= branch) := by
  have either : ∀ cursor found middle, accept kinds cursor = .ok found middle →
      (∃ taken, cursor.ahead = taken ++ middle.ahead) ∧ middle.complaints = cursor.complaints ∧
        Onward (branch found) := by
    intro cursor found middle accepted
    rcases accept_eq_ok accepted with ⟨token, rfl, isOne, ahead, complaints⟩ | ⟨rfl, rfl, _⟩
    · exact ⟨⟨[token], ahead⟩, complaints, present token isOne⟩
    · exact ⟨⟨[], rfl⟩, rfl, absent⟩
  constructor
  · intro cursor result after succeeded
    obtain ⟨found, middle, accepted, goesOn⟩ := bind_eq_ok.1 succeeded
    obtain ⟨⟨taken, ahead⟩, complaints, onward⟩ := either cursor found middle accepted
    obtain ⟨added, more, moreComplaints, moreAhead, _⟩ := onward.onResult middle result after goesOn
    refine ⟨added, taken ++ more, ?_, ?_, fun _ => trivial⟩
    · rw [moreComplaints, complaints]
    · rw [ahead, moreAhead, List.append_assoc]
  · intro cursor halt after halted
    rcases bind_eq_error.1 halted with acceptHalted | ⟨found, middle, accepted, branchHalted⟩
    · exact (Reads.accept kinds).onHalt cursor halt after acceptHalted
    · obtain ⟨⟨taken, ahead⟩, complaints, onward⟩ := either cursor found middle accepted
      obtain ⟨added, more, moreComplaints, moreAhead, noted⟩ :=
        onward.onHalt middle halt after branchHalted
      refine ⟨added, taken ++ more, ?_, ?_, noted⟩
      · rw [moreComplaints, complaints]
      · rw [ahead, moreAhead, List.append_assoc]

theorem expectThen {kind : TokenKind} {what : String} {next : Token → Parser β}
    (goesOn : ∀ token, Onward (next token)) : Onward (Parser.expect kind what >>= next) :=
  bind (Reads.expect kind what).onward goesOn

theorem length_le (onward : Onward parser) {cursor after : Cursor} {result : α}
    (succeeded : parser cursor = .ok result after) :
    after.ahead.length ≤ cursor.ahead.length := by
  obtain ⟨_, taken, _, ahead, _⟩ := onward.onResult cursor result after succeeded
  rw [ahead, List.length_append]
  exact Nat.le_add_left _ _

end Onward

/-- What the parser reads has a wanted token in it. -/
structure Takes (wanted : Token → Prop) (parser : Parser α) : Prop where
  onward : Onward parser
  onResult : ∀ cursor result after, parser cursor = .ok result after →
    ∃ taken, cursor.ahead = taken ++ after.ahead ∧ ∃ token ∈ taken, wanted token

/-- What the parser reads are some tokens. -/
abbrev Moves (parser : Parser α) : Prop := Takes (fun _ => True) parser

/-- What ends a statement or opens its body. -/
def Finishes (token : Token) : Prop := token.kind = .semicolon ∨ token.kind = .leftBrace

namespace Takes

variable {wanted : Token → Prop} {parser : Parser α} {next : α → Parser β}

theorem mono {weaker : Token → Prop} (takes : Takes wanted parser)
    (implies : ∀ token, wanted token → weaker token) : Takes weaker parser := by
  refine ⟨takes.onward, fun cursor result after succeeded => ?_⟩
  obtain ⟨taken, ahead, token, among, isWanted⟩ := takes.onResult cursor result after succeeded
  exact ⟨taken, ahead, token, among, implies token isWanted⟩

theorem moves (takes : Takes wanted parser) : Moves parser := takes.mono fun _ _ => trivial

theorem first (takes : Takes wanted parser) (second : ∀ value, Onward (next value)) :
    Takes wanted (parser >>= next) := by
  refine ⟨.bind takes.onward second, fun cursor result after succeeded => ?_⟩
  obtain ⟨value, middle, firstSucceeded, nextSucceeded⟩ := bind_eq_ok.1 succeeded
  obtain ⟨taken, ahead, token, among, isWanted⟩ :=
    takes.onResult cursor value middle firstSucceeded
  obtain ⟨_, more, _, moreAhead, _⟩ := (second value).onResult middle result after nextSucceeded
  refine ⟨taken ++ more, ?_, token, List.mem_append_left more among, isWanted⟩
  rw [ahead, moreAhead, List.append_assoc]

theorem second (first : Onward parser) (takes : ∀ value, Takes wanted (next value)) :
    Takes wanted (parser >>= next) := by
  refine ⟨.bind first fun value => (takes value).onward, fun cursor result after succeeded => ?_⟩
  obtain ⟨value, middle, firstSucceeded, nextSucceeded⟩ := bind_eq_ok.1 succeeded
  obtain ⟨_, early, _, earlyAhead, _⟩ := first.onResult cursor value middle firstSucceeded
  obtain ⟨taken, ahead, token, among, isWanted⟩ :=
    (takes value).onResult middle result after nextSucceeded
  refine ⟨early ++ taken, ?_, token, List.mem_append_right early among, isWanted⟩
  rw [earlyAhead, ahead, List.append_assoc]

theorem fail (error : SyntaxError) : Takes wanted (Parser.fail error : Parser α) :=
  ⟨Reads.fail _ _, fun _ _ _ succeeded => nomatch succeeded⟩

theorem tooDeep : Takes wanted (throw .tooDeep : Parser α) :=
  ⟨Reads.tooDeep _, fun _ _ _ succeeded => nomatch succeeded⟩

/-- With a token of one of these kinds or without one, a wanted token is taken. -/
theorem acceptThen {kinds : List TokenKind} {branch : Option Token → Parser β}
    (absent : Takes wanted (branch none))
    (present : ∀ token, token.kind ∈ kinds →
      wanted token ∧ Onward (branch (some token)) ∨ Takes wanted (branch (some token))) :
    Takes wanted (accept kinds >>= branch) := by
  refine ⟨.acceptThen absent.onward fun token isOne =>
    (present token isOne).elim And.right Takes.onward, fun cursor result after succeeded => ?_⟩
  obtain ⟨found, middle, accepted, goesOn⟩ := bind_eq_ok.1 succeeded
  rcases accept_eq_ok accepted with ⟨token, rfl, isOne, ahead, _⟩ | ⟨rfl, rfl, _⟩
  · rcases present token isOne with ⟨isWanted, onward⟩ | takes
    · obtain ⟨_, more, _, moreAhead, _⟩ := onward.onResult middle result after goesOn
      exact ⟨token :: more, by rw [ahead, moreAhead]; rfl, token, List.mem_cons_self, isWanted⟩
    · obtain ⟨taken, takenAhead, other, among, isWanted⟩ :=
        takes.onResult middle result after goesOn
      exact ⟨token :: taken, by rw [ahead, takenAhead]; rfl, other,
        List.mem_cons_of_mem token among, isWanted⟩
  · exact absent.onResult _ result after goesOn

theorem expect {kind : TokenKind} (what : String)
    (isWanted : ∀ token : Token, token.kind = kind → wanted token) :
    Takes wanted (Parser.expect kind what) :=
  acceptThen (fail _) fun token isOne =>
    .inl ⟨isWanted token (List.mem_singleton.1 isOne), .pure token⟩

/-- After a token that has to be there a wanted one is taken. -/
theorem expectThen {kind : TokenKind} {what : String} {next : Token → Parser β}
    (takes : ∀ token, Takes wanted (next token)) :
    Takes wanted (Parser.expect kind what >>= next) :=
  second (Reads.expect kind what).onward takes

theorem length_lt (takes : Takes wanted parser) {cursor after : Cursor} {result : α}
    (succeeded : parser cursor = .ok result after) :
    after.ahead.length < cursor.ahead.length := by
  obtain ⟨taken, ahead, token, among, _⟩ := takes.onResult cursor result after succeeded
  rw [ahead, List.length_append]
  exact Nat.lt_add_of_pos_left (List.length_pos_of_mem among)

end Takes

section Expressions

variable {operand unary assigned nested : Parser (Expr Unit)} {kinds : List TokenKind}
  {join : Expr Unit → Token → Expr Unit → Expr Unit}

theorem Onward.operatorsAfter (operandOnward : Onward operand) (fuel : Nat) (left : Expr Unit) :
    Onward (Parser.operatorsAfter operand kinds join fuel left) := by
  induction fuel generalizing left with
  | zero => exact pure left
  | succ fuel induction =>
      refine acceptThen (pure left) fun op _ => ?_
      refine bind operandOnward fun right => ?_
      exact induction (join left op right)

theorem Onward.callsAfter (argsOnward : Onward (items nested .tooManyArguments)) (fuel : Nat)
    (callee : Expr Unit) : Onward (Parser.callsAfter nested fuel callee) := by
  induction fuel generalizing callee with
  | zero => exact pure callee
  | succ fuel induction =>
      refine acceptThen (pure callee) fun token _ => ?_
      dsimp only
      split
      · refine bind argsOnward fun args => ?_
        exact expectThen fun paren => induction (.call callee paren args)
      · exact expectThen fun name => induction (.get callee name)

namespace Takes

theorem leftAssociative (operandMoves : Moves operand) :
    Moves (Parser.leftAssociative operand kinds join) := by
  refine first operandMoves fun left => ?_
  refine .bind Reads.remaining.onward fun fuel => ?_
  exact .operatorsAfter operandMoves.onward fuel left

theorem disjunction (unaryMoves : Moves unary) : Moves (Parser.disjunction unary) := by
  have product : Moves (Parser.product unary) := leftAssociative unaryMoves
  have sum : Moves (Parser.sum unary) := leftAssociative product
  have comparison : Moves (Parser.comparison unary) := leftAssociative sum
  have equality : Moves (Parser.equality unary) := leftAssociative comparison
  have conjunction : Moves (Parser.conjunction unary) := leftAssociative equality
  exact leftAssociative conjunction

theorem assignment (unaryMoves : Moves unary) (assignedOnward : Onward assigned) :
    Moves (Parser.assignment unary assigned) := by
  refine first (disjunction unaryMoves) fun target => ?_
  refine .acceptThen (.pure target) fun equals _ => ?_
  refine .bind assignedOnward fun value => ?_
  split
  · exact .pure _
  · exact .bind (Reads.complain _ _).onward fun _ => .pure target

theorem primary (nestedOnward : Onward nested) : Moves (Parser.primary nested) := by
  refine acceptThen (fail _) fun token _ => .inl ⟨trivial, ?_⟩
  dsimp only
  split
  case h_3 =>
      refine .expectThen fun dot => ?_
      exact .expectThen fun method => .pure _
  case h_6 =>
      refine .bind nestedOnward fun inner => ?_
      exact .expectThen fun closing => .pure _
  all_goals exact .pure _

theorem call (nestedOnward : Onward nested) : Moves (Parser.call nested) := by
  have argsOnward := (Reads.items .tooManyArguments nestedOnward).onward
  refine first (primary nestedOnward) fun callee => ?_
  refine .bind Reads.remaining.onward fun fuel => ?_
  exact .callsAfter argsOnward fuel callee

theorem prefixed (operandOnward : Onward operand) (nestedOnward : Onward nested) :
    Moves (Parser.prefixed operand nested) := by
  refine acceptThen (call nestedOnward) fun op _ => .inl ⟨trivial, ?_⟩
  exact .bind operandOnward fun inner => .pure _

theorem unaryAt (depth : Nat) : Moves (Parser.unaryAt depth) := by
  cases depth with
  | zero => exact tooDeep
  | succ depth =>
      exact prefixed (ReadsLayer.unaryAt depth).onward (ReadsLayer.expressionAt depth).onward

theorem expressionAt (depth : Nat) : Moves (Parser.expressionAt depth) := by
  cases depth with
  | zero => exact tooDeep
  | succ depth => exact assignment (unaryAt depth) (ReadsLayer.expressionAt depth).onward

end Takes

end Expressions

section Statements

variable {expression : Parser (Expr Unit)} {nested inner : Parser (Stmt Unit)}

theorem Onward.elseBranch? (nestedOnward : Onward nested) :
    Onward (Parser.elseBranch? nested) := by
  refine acceptThen (pure none) fun otherwise _ => ?_
  exact bind nestedOnward fun branch => pure _

namespace Takes

theorem expectSemicolon (what : String) : Takes Finishes (Parser.expect .semicolon what) :=
  expect what fun _ => .inl

theorem expectLeftBrace (what : String) : Takes Finishes (Parser.expect .leftBrace what) :=
  expect what fun _ => .inr

theorem varRest (expressionReads : ReadsLayer expression .assignment) :
    Takes Finishes (Parser.varRest expression) := by
  have initializerOnward := (ReadsStatement.initializer? expressionReads).onward
  refine expectThen fun name => ?_
  refine second initializerOnward fun initializer => ?_
  exact first (expectSemicolon _) fun semicolon => .pure _

theorem expressionStatement (expressionReads : ReadsLayer expression .assignment) :
    Takes Finishes (Parser.expressionStatement expression) := by
  refine second expressionReads.onward fun value => ?_
  exact first (expectSemicolon _) fun semicolon => .pure _

theorem printRest (expressionReads : ReadsLayer expression .assignment) :
    Takes Finishes (Parser.printRest expression) := by
  refine second expressionReads.onward fun value => ?_
  exact first (expectSemicolon _) fun semicolon => .pure _

theorem returnRest (expressionReads : ReadsLayer expression .assignment) (keyword : Token) :
    Takes Finishes (Parser.returnRest keyword expression) := by
  have valueOnward := (ReadsStatement.expressionUnless expressionReads .semicolon).onward
  refine second valueOnward fun value => ?_
  exact first (expectSemicolon _) fun semicolon => .pure _

/-- The brace is what is wanted; whatever the body is, nothing more is needed of it. -/
theorem functionRest (innerReads : ReadsStatement inner .list) (noun : String) :
    Takes Finishes (Parser.functionRest inner noun) := by
  have paramsOnward := (Reads.items .tooManyParameters (Reads.expect .identifier
    "parameter name")).onward
  refine expectThen fun name => ?_
  refine expectThen fun opening => ?_
  refine second paramsOnward fun params => ?_
  refine expectThen fun closing => ?_
  refine first (expectLeftBrace _) fun brace => ?_
  refine .bind (ReadsStatement.blockRest innerReads).onward fun body => ?_
  exact .pure _

theorem classRest (innerReads : ReadsStatement inner .list) :
    Takes Finishes (Parser.classRest inner) := by
  refine expectThen fun name => ?_
  refine second ReadsStatement.superclass?.onward fun superclass => ?_
  refine first (expectLeftBrace _) fun brace => ?_
  refine .bind Reads.remaining.onward fun fuel => ?_
  refine .bind (ReadsStatement.methods innerReads _ fuel).onward fun methods => ?_
  exact .expectThen fun closing => .pure _

theorem whileRest (expressionOnward : Onward expression) (nestedTakes : Takes Finishes nested) :
    Takes Finishes (Parser.whileRest expression nested) := by
  refine expectThen fun opening => ?_
  refine second expressionOnward fun condition => ?_
  refine expectThen fun closing => ?_
  exact first nestedTakes fun body => .pure _

theorem ifRest (expressionOnward : Onward expression) (nestedTakes : Takes Finishes nested) :
    Takes Finishes (Parser.ifRest expression nested) := by
  refine expectThen fun opening => ?_
  refine second expressionOnward fun condition => ?_
  refine expectThen fun closing => ?_
  refine first nestedTakes fun thenBranch => ?_
  exact .bind (.elseBranch? nestedTakes.onward) fun elseBranch => .pure _

/-- Whatever the clauses are, there is a semicolon after the condition. -/
theorem forRest (expressionReads : ReadsLayer expression .assignment)
    (nestedTakes : Takes Finishes nested) :
    Takes Finishes (Parser.forRest expression nested) := by
  have clauseOnward (kind : TokenKind) : Onward (Parser.expressionUnless kind expression) :=
    (ReadsStatement.expressionUnless expressionReads kind).onward
  refine expectThen fun opening => ?_
  refine second (ReadsStatement.forInitializer expressionReads).onward fun initializer => ?_
  refine second (clauseOnward .semicolon) fun condition => ?_
  refine first (expectSemicolon _) fun semicolon => ?_
  refine .bind (clauseOnward .rightParen) fun increment => ?_
  refine .expectThen fun closing => ?_
  exact .bind nestedTakes.onward fun body => .pure _

theorem statement (expressionReads : ReadsLayer expression .assignment)
    (nestedTakes : Takes Finishes nested) (innerReads : ReadsStatement inner .list) :
    Takes Finishes (Parser.statement expression nested inner) := by
  refine acceptThen (expressionStatement expressionReads) fun token isOne => ?_
  dsimp only
  split
  case h_1 => exact .inr (forRest expressionReads nestedTakes)
  case h_2 => exact .inr (ifRest expressionReads.onward nestedTakes)
  case h_3 => exact .inr (printRest expressionReads)
  case h_4 => exact .inr (returnRest expressionReads token)
  case h_5 => exact .inr (whileRest expressionReads.onward nestedTakes)
  case h_6 =>
      refine .inl ⟨.inr (by simp_all), ?_⟩
      exact .bind (ReadsStatement.blockRest innerReads).onward fun body => .pure _

theorem attempt (expressionReads : ReadsLayer expression .assignment)
    (nestedTakes : Takes Finishes nested) (innerReads : ReadsStatement inner .list) :
    Takes Finishes (Parser.attempt expression nested inner) := by
  refine acceptThen nestedTakes fun token _ => .inr ?_
  dsimp only
  split
  · exact classRest innerReads
  · exact first (functionRest innerReads _) fun decl => .pure _
  · exact varRest expressionReads

end Takes

/-- With a guard or without one, the same is read without complaint. -/
theorem ReadsStatement.guard {statement : Parser (Stmt Unit)} {position : Position}
    (reads : ReadsStatement statement position) (manner : Manner) :
    ReadsStatement (manner.guard statement) position := by
  cases manner with
  | strict => exact reads
  | recovering => exact Reads.recovering reads

mutual

theorem ReadsStatement.statementBy (manner : Manner) (depth : Nat) (position : Position) :
    ReadsStatement (Parser.statementBy manner depth) position := by
  cases depth with
  | zero => exact Reads.tooDeep _
  | succ depth =>
      exact statement (ReadsLayer.expressionAt depth) (statementBy manner depth .branch)
        (declarationBy manner depth)

theorem ReadsStatement.declarationBy (manner : Manner) (depth : Nat) :
    ReadsStatement (Parser.declarationBy manner depth) .list := by
  cases depth with
  | zero => exact Reads.tooDeep _
  | succ depth =>
      exact guard (attempt (ReadsLayer.expressionAt depth) (statementBy manner depth .list)
        (declarationBy manner depth)) manner

end

theorem Takes.statementBy (manner : Manner) (depth : Nat) :
    Takes Finishes (Parser.statementBy manner depth) := by
  induction depth with
  | zero => exact tooDeep
  | succ depth induction =>
      exact statement (ReadsLayer.expressionAt depth) induction
        (ReadsStatement.declarationBy manner depth)

end Statements

/-- With a token ahead the parser takes it, if it yields a result. -/
def Advances (parser : Parser α) : Prop :=
  ∀ cursor result after, parser cursor = .ok result after → cursor.ahead ≠ [] →
    after.ahead.length < cursor.ahead.length

theorem Takes.advances {wanted : Token → Prop} {parser : Parser α} (takes : Takes wanted parser) :
    Advances parser :=
  fun _ _ _ succeeded _ => takes.length_lt succeeded

/-- The token that was complained about is dropped. -/
theorem synchronize_length_lt {tokens : List Token} (notEmpty : tokens ≠ []) :
    (synchronize tokens).length < tokens.length := by
  cases tokens with
  | nil => exact absurd rfl notEmpty
  | cons offender rest =>
      exact Nat.lt_succ_of_le (skipPast_suffix offender rest).length_le

namespace Advances

theorem recovering {S : Type} {statement : Parser (Stmt S)} (onward : Onward statement)
    (advances : Advances statement) : Advances (Parser.recovering statement) := by
  intro cursor result after succeeded notEmpty
  unfold Parser.recovering at succeeded
  split at succeeded
  case h_1 inner middle outcome =>
      cases succeeded
      exact advances cursor result after outcome notEmpty
  case h_2 middle outcome =>
      cases succeeded
      obtain ⟨_, taken, _, ahead, _⟩ := onward.onHalt cursor .syntaxError middle outcome
      have fewer : middle.ahead.length ≤ cursor.ahead.length := by simp [ahead]
      by_cases atEnd : middle.ahead = []
      · rw [atEnd]
        exact List.length_pos_iff.2 notEmpty
      · exact Nat.lt_of_lt_of_le (synchronize_length_lt atEnd) fewer
  case h_3 => cases succeeded

theorem guard {statement : Parser (Stmt Unit)} (manner : Manner) (onward : Onward statement)
    (advances : Advances statement) : Advances (manner.guard statement) := by
  cases manner with
  | strict => exact advances
  | recovering => exact recovering onward advances

/-- A declaration takes the token ahead, whether it is read or lost. -/
theorem declarationBy (manner : Manner) (depth : Nat) :
    Advances (Parser.declarationBy manner depth) := by
  cases depth with
  | zero => exact fun _ _ _ succeeded => nomatch succeeded
  | succ depth =>
      have takes := Takes.attempt (ReadsLayer.expressionAt depth) (.statementBy manner depth)
        (ReadsStatement.declarationBy manner depth)
      exact guard manner takes.onward takes.advances

theorem declarationAt (depth : Nat) : Advances (Parser.declarationAt depth) :=
  declarationBy_recovering depth ▸ declarationBy .recovering depth

end Advances

end LoxLang.Parser
