import LoxLang.Parser
import LoxLang.Proofs.Parser.Attempts
import LoxLang.Proofs.Parser.Reading

/-!
# How deep the parsers nest

A token opens at most two levels of nesting.  So the levels that `parse` allows
for some tokens are never used up.
-/

namespace LoxLang.Parser

variable {α β : Type}

/-- On fewer than so many tokens the parser does not halt for lack of depth. -/
def StaysWithin (bound : Nat) (parser : Parser α) : Prop :=
  ∀ cursor : Cursor, cursor.ahead.length < bound →
    (∀ result after, parser cursor = .ok result after →
      after.ahead.length ≤ cursor.ahead.length) ∧
    ∀ halt after, parser cursor = .error halt after →
      halt = .syntaxError ∧ after.ahead.length ≤ cursor.ahead.length

namespace StaysWithin

variable {bound : Nat} {parser item : Parser α}

theorem mono {smaller : Nat} (within : StaysWithin bound parser) (le : smaller ≤ bound) :
    StaysWithin smaller parser :=
  fun cursor few => within cursor (Nat.lt_of_lt_of_le few le)

theorem bind {next : α → Parser β} (firstWithin : StaysWithin bound parser)
    (nextWithin : ∀ value, StaysWithin bound (next value)) :
    StaysWithin bound (parser >>= next) := by
  intro cursor few
  obtain ⟨firstResult, firstHalt⟩ := firstWithin cursor few
  constructor
  · intro result after succeeded
    obtain ⟨value, middle, firstSucceeded, nextSucceeded⟩ := bind_eq_ok.1 succeeded
    have fewer := firstResult value middle firstSucceeded
    have fewest := (nextWithin value middle (by omega)).1 result after nextSucceeded
    omega
  · intro halt after halted
    rcases bind_eq_error.1 halted with firstHalted | ⟨value, middle, firstSucceeded, nextHalted⟩
    · exact firstHalt halt after firstHalted
    · have fewer := firstResult value middle firstSucceeded
      obtain ⟨isSyntaxError, fewest⟩ := (nextWithin value middle (by omega)).2 halt after nextHalted
      exact ⟨isSyntaxError, by omega⟩

theorem pure (value : α) : StaysWithin bound (Pure.pure value) := by
  intro cursor _
  constructor
  · intro result after succeeded
    cases succeeded
    exact Nat.le_refl _
  · intro halt after halted
    cases halted

theorem fail (error : SyntaxError) : StaysWithin bound (Parser.fail error : Parser α) := by
  intro cursor _
  constructor
  · intro result after succeeded
    cases succeeded
  · intro halt after halted
    cases halted
    exact ⟨rfl, Nat.le_refl _⟩

theorem complain (about : Option Token) (error : SyntaxError) :
    StaysWithin bound (Parser.complain about error) := by
  intro cursor _
  constructor
  · intro result after succeeded
    cases succeeded
    exact Nat.le_refl _
  · intro halt after halted
    cases halted

theorem peek : StaysWithin bound Parser.peek := by
  intro cursor _
  constructor
  · intro result after succeeded
    cases succeeded
    exact Nat.le_refl _
  · intro halt after halted
    cases halted

theorem remaining : StaysWithin bound Parser.remaining := by
  intro cursor _
  constructor
  · intro result after succeeded
    cases succeeded
    exact Nat.le_refl _
  · intro halt after halted
    cases halted

/-- After a token that was taken there is one token less. -/
theorem acceptThen {kinds : List TokenKind} {branch : Option Token → Parser β}
    (absent : StaysWithin bound (branch none))
    (present : ∀ token, StaysWithin (bound - 1) (branch (some token))) :
    StaysWithin bound (accept kinds >>= branch) := by
  intro cursor few
  have stays : ∀ outcome, (accept kinds >>= branch) cursor = outcome →
      branch none cursor = outcome ∨ ∃ token rest, cursor.ahead = token :: rest ∧
        branch (some token) { cursor with ahead := rest } = outcome := by
    intro outcome same
    change EStateM.bind (accept kinds) branch cursor = outcome at same
    unfold EStateM.bind accept at same
    cases ahead : cursor.ahead with
    | nil => exact .inl (by simpa [ahead] using same)
    | cons token rest =>
        by_cases wanted : token.kind ∈ kinds
        · exact .inr ⟨token, rest, rfl, by simpa [ahead, wanted] using same⟩
        · exact .inl (by simpa [ahead, wanted] using same)
  constructor
  · intro result after succeeded
    rcases stays _ succeeded with noToken | ⟨token, rest, ahead, taken⟩
    · exact (absent cursor few).1 result after noToken
    · rw [ahead, List.length_cons] at few ⊢
      have fewer := (present token { cursor with ahead := rest } (by simp; omega)).1 _ _ taken
      simp only at fewer
      omega
  · intro halt after halted
    rcases stays _ halted with noToken | ⟨token, rest, ahead, taken⟩
    · exact (absent cursor few).2 halt after noToken
    · rw [ahead, List.length_cons] at few ⊢
      obtain ⟨isSyntaxError, fewer⟩ :=
        (present token { cursor with ahead := rest } (by simp; omega)).2 _ _ taken
      simp only at fewer
      exact ⟨isSyntaxError, by omega⟩

theorem expect (kind : TokenKind) (what : String) :
    StaysWithin bound (Parser.expect kind what) :=
  acceptThen (fail _) fun token => pure token

theorem expectThen {kind : TokenKind} {what : String} {next : Token → Parser β}
    (goesOn : ∀ token, StaysWithin bound (next token)) :
    StaysWithin bound (Parser.expect kind what >>= next) :=
  bind (expect kind what) goesOn

theorem isAhead (kind : TokenKind) : StaysWithin bound (Parser.isAhead kind) :=
  bind peek fun _ => pure _

theorem many (wanted : Token → Bool) (itemWithin : StaysWithin bound item) (fuel : Nat) :
    StaysWithin bound (Parser.many wanted item fuel) := by
  induction fuel with
  | zero => exact pure _
  | succ fuel induction =>
      unfold Parser.many
      refine bind peek fun ahead => ?_
      split
      · refine bind itemWithin fun first => ?_
        exact bind induction fun others => pure _
      · exact pure _

theorem itemsAfter (excess : SyntaxError) (itemWithin : StaysWithin bound item)
    (fuel count : Nat) : StaysWithin bound (Parser.itemsAfter item excess fuel count) := by
  induction fuel generalizing count with
  | zero => exact pure _
  | succ fuel induction =>
      unfold Parser.itemsAfter
      refine acceptThen (pure _) fun comma => mono ?_ (Nat.sub_le bound 1)
      have oneMore : StaysWithin bound (do
          let next ← item
          let rest ← Parser.itemsAfter item excess fuel (count + 1)
          return next :: rest) := by
        refine bind itemWithin fun next => ?_
        exact bind (induction (count + 1)) fun rest => pure _
      dsimp only
      split
      · refine bind peek fun about => ?_
        exact bind (complain about excess) fun _ => oneMore
      · exact oneMore

theorem items (excess : SyntaxError) (itemWithin : StaysWithin bound item) :
    StaysWithin bound (Parser.items item excess) := by
  refine bind (isAhead _) fun closes => ?_
  split
  · exact pure _
  · refine bind itemWithin fun first => ?_
    refine bind remaining fun fuel => ?_
    exact bind (itemsAfter excess itemWithin fuel 1) fun others => pure _

theorem recovering {S : Type} {statement : Parser (Stmt S)}
    (within : StaysWithin bound statement) : StaysWithin bound (Parser.recovering statement) := by
  intro cursor few
  obtain ⟨onResult, onHalt⟩ := within cursor few
  unfold Parser.recovering
  cases outcome : statement cursor with
  | ok inner middle =>
      constructor
      · intro result after succeeded
        cases succeeded
        exact onResult inner middle outcome
      · intro halt after halted
        cases halted
  | error halt middle =>
      obtain ⟨rfl, fewer⟩ := onHalt halt middle outcome
      constructor
      · intro result after succeeded
        cases succeeded
        exact Nat.le_trans (synchronize_suffix middle.ahead).length_le fewer
      · intro halt after halted
        cases halted

section Expressions

variable {operand unary assigned nested : Parser (Expr Unit)} {kinds : List TokenKind}
  {join : Expr Unit → Token → Expr Unit → Expr Unit}

theorem operatorsAfter (operandWithin : StaysWithin bound operand) (fuel : Nat)
    (left : Expr Unit) :
    StaysWithin bound (Parser.operatorsAfter operand kinds join fuel left) := by
  induction fuel generalizing left with
  | zero => exact pure _
  | succ fuel induction =>
      refine acceptThen (pure _) fun op => mono ?_ (Nat.sub_le bound 1)
      refine bind operandWithin fun right => ?_
      exact induction (join left op right)

theorem leftAssociative (operandWithin : StaysWithin bound operand) :
    StaysWithin bound (Parser.leftAssociative operand kinds join) := by
  refine bind operandWithin fun left => ?_
  refine bind remaining fun fuel => ?_
  exact operatorsAfter operandWithin fuel left

theorem disjunction (unaryWithin : StaysWithin bound unary) :
    StaysWithin bound (Parser.disjunction unary) := by
  have product : StaysWithin bound (Parser.product unary) := leftAssociative unaryWithin
  have sum : StaysWithin bound (Parser.sum unary) := leftAssociative product
  have comparison : StaysWithin bound (Parser.comparison unary) := leftAssociative sum
  have equality : StaysWithin bound (Parser.equality unary) := leftAssociative comparison
  have conjunction : StaysWithin bound (Parser.conjunction unary) := leftAssociative equality
  exact leftAssociative conjunction

theorem assignment (unaryWithin : StaysWithin bound unary)
    (assignedWithin : StaysWithin (bound - 1) assigned) :
    StaysWithin bound (Parser.assignment unary assigned) := by
  refine bind (disjunction unaryWithin) fun target => ?_
  refine acceptThen (pure target) fun equals => ?_
  refine bind assignedWithin fun value => ?_
  split
  · exact pure _
  · exact bind (complain _ _) fun _ => pure _

theorem primary (nestedWithin : StaysWithin (bound - 1) nested) :
    StaysWithin bound (Parser.primary nested) := by
  refine acceptThen (fail _) fun token => ?_
  dsimp only
  split
  case h_3 =>
      refine expectThen fun dot => ?_
      exact expectThen fun method => pure _
  case h_6 =>
      refine bind nestedWithin fun inner => ?_
      exact expectThen fun closing => pure _
  all_goals exact pure _

theorem callsAfter (nestedWithin : StaysWithin (bound - 1) nested) (fuel : Nat)
    (callee : Expr Unit) : StaysWithin bound (Parser.callsAfter nested fuel callee) := by
  induction fuel generalizing callee with
  | zero => exact pure _
  | succ fuel induction =>
      refine acceptThen (pure _) fun token => ?_
      have goesOn := fun callee => mono (induction callee) (Nat.sub_le bound 1)
      dsimp only
      split
      · refine bind (items _ nestedWithin) fun args => ?_
        exact expectThen fun paren => goesOn (.call callee paren args)
      · exact expectThen fun name => goesOn (.get callee name)

theorem prefixed (operandWithin : StaysWithin (bound - 1) operand)
    (nestedWithin : StaysWithin (bound - 1) nested) :
    StaysWithin bound (Parser.prefixed operand nested) := by
  refine acceptThen ?_ fun op => bind operandWithin fun inner => pure _
  refine bind (primary nestedWithin) fun callee => ?_
  refine bind remaining fun fuel => ?_
  exact callsAfter nestedWithin fuel callee

theorem nothing : StaysWithin 0 parser := by
  intro cursor impossible
  exact (Nat.not_lt_zero _ impossible).elim

mutual

theorem expressionAt (bound depth : Nat) (deep : 2 * bound ≤ depth) :
    StaysWithin bound (Parser.expressionAt depth) := by
  cases depth with
  | zero =>
      obtain rfl : bound = 0 := by omega
      exact nothing
  | succ depth =>
      exact assignment (unaryAt bound depth (by omega)) (expressionAt (bound - 1) depth (by omega))

theorem unaryAt (bound depth : Nat) (deep : 2 * bound ≤ depth + 1) :
    StaysWithin bound (Parser.unaryAt depth) := by
  cases depth with
  | zero =>
      obtain rfl : bound = 0 := by omega
      exact nothing
  | succ depth =>
      exact prefixed (unaryAt (bound - 1) depth (by omega))
        (expressionAt (bound - 1) depth (by omega))

end

end Expressions

section Statements

variable {expression : Parser (Expr Unit)} {nested inner : Parser (Stmt Unit)}

theorem blockRest (innerWithin : StaysWithin bound inner) :
    StaysWithin bound (Parser.blockRest inner) := by
  refine bind remaining fun fuel => ?_
  refine bind (many _ innerWithin fuel) fun body => ?_
  exact expectThen fun closing => pure body

theorem functionRest (innerWithin : StaysWithin bound inner) (noun : String) :
    StaysWithin bound (Parser.functionRest inner noun) := by
  refine expectThen fun name => ?_
  refine expectThen fun opening => ?_
  refine bind (items _ (expect _ _)) fun params => ?_
  refine expectThen fun closing => ?_
  refine expectThen fun brace => ?_
  exact bind (blockRest innerWithin) fun body => pure _

theorem superclass? : StaysWithin bound Parser.superclass? := by
  refine acceptThen (pure none) fun less => ?_
  exact expectThen fun name => pure _

theorem classRest (innerWithin : StaysWithin bound inner) :
    StaysWithin bound (Parser.classRest inner) := by
  refine expectThen fun name => ?_
  refine bind superclass? fun superclass => ?_
  refine expectThen fun brace => ?_
  refine bind remaining fun fuel => ?_
  refine bind (many _ (functionRest innerWithin "method") fuel) fun methods => ?_
  exact expectThen fun closing => pure _

theorem initializer? (expressionWithin : StaysWithin bound expression) :
    StaysWithin bound (Parser.initializer? expression) := by
  refine acceptThen (pure none) fun equals => ?_
  exact bind (mono expressionWithin (Nat.sub_le bound 1)) fun value => pure _

theorem varRest (expressionWithin : StaysWithin bound expression) :
    StaysWithin bound (Parser.varRest expression) := by
  refine expectThen fun name => ?_
  refine bind (initializer? expressionWithin) fun initializer => ?_
  exact expectThen fun semicolon => pure _

theorem expressionStatement (expressionWithin : StaysWithin bound expression) :
    StaysWithin bound (Parser.expressionStatement expression) := by
  refine bind expressionWithin fun value => ?_
  exact expectThen fun semicolon => pure _

theorem expressionUnless (expressionWithin : StaysWithin bound expression) (kind : TokenKind) :
    StaysWithin bound (Parser.expressionUnless kind expression) := by
  refine bind (isAhead kind) fun ahead => ?_
  split
  · exact pure _
  · exact bind expressionWithin fun value => pure _

theorem forInitializer (expressionWithin : StaysWithin bound expression) :
    StaysWithin bound (Parser.forInitializer expression) := by
  refine acceptThen (bind (expressionStatement expressionWithin) fun first => pure _)
    fun token => mono ?_ (Nat.sub_le bound 1)
  dsimp only
  split
  · exact bind (varRest expressionWithin) fun first => pure _
  · exact pure _

theorem forRest (expressionWithin : StaysWithin bound expression)
    (nestedWithin : StaysWithin bound nested) :
    StaysWithin bound (Parser.forRest expression nested) := by
  refine expectThen fun opening => ?_
  refine bind (forInitializer expressionWithin) fun initializer => ?_
  refine bind (expressionUnless expressionWithin .semicolon) fun condition => ?_
  refine expectThen fun semicolon => ?_
  refine bind (expressionUnless expressionWithin .rightParen) fun increment => ?_
  refine expectThen fun closing => ?_
  exact bind nestedWithin fun body => pure _

theorem elseBranch? (nestedWithin : StaysWithin bound nested) :
    StaysWithin bound (Parser.elseBranch? nested) := by
  refine acceptThen (pure none) fun otherwise => ?_
  exact bind (mono nestedWithin (Nat.sub_le bound 1)) fun branch => pure _

theorem ifRest (expressionWithin : StaysWithin bound expression)
    (nestedWithin : StaysWithin bound nested) :
    StaysWithin bound (Parser.ifRest expression nested) := by
  refine expectThen fun opening => ?_
  refine bind expressionWithin fun condition => ?_
  refine expectThen fun closing => ?_
  refine bind nestedWithin fun thenBranch => ?_
  exact bind (elseBranch? nestedWithin) fun elseBranch => pure _

theorem printRest (expressionWithin : StaysWithin bound expression) :
    StaysWithin bound (Parser.printRest expression) := by
  refine bind expressionWithin fun value => ?_
  exact expectThen fun semicolon => pure _

theorem returnRest (expressionWithin : StaysWithin bound expression) (keyword : Token) :
    StaysWithin bound (Parser.returnRest keyword expression) := by
  refine bind (expressionUnless expressionWithin .semicolon) fun value => ?_
  exact expectThen fun semicolon => pure _

theorem whileRest (expressionWithin : StaysWithin bound expression)
    (nestedWithin : StaysWithin bound nested) :
    StaysWithin bound (Parser.whileRest expression nested) := by
  refine expectThen fun opening => ?_
  refine bind expressionWithin fun condition => ?_
  refine expectThen fun closing => ?_
  exact bind nestedWithin fun body => pure _

/-- Every part of a statement that nests comes after a token. -/
theorem statement (expressionWithin : StaysWithin bound expression)
    (nestedWithin : StaysWithin (bound - 1) nested) (innerWithin : StaysWithin (bound - 1) inner) :
    StaysWithin bound (Parser.statement expression nested inner) := by
  refine acceptThen (expressionStatement expressionWithin) fun token => ?_
  have expressionWithin := mono expressionWithin (Nat.sub_le bound 1)
  dsimp only
  split
  case h_1 => exact forRest expressionWithin nestedWithin
  case h_2 => exact ifRest expressionWithin nestedWithin
  case h_3 => exact printRest expressionWithin
  case h_4 => exact returnRest expressionWithin token
  case h_5 => exact whileRest expressionWithin nestedWithin
  case h_6 => exact bind (blockRest innerWithin) fun body => pure _

theorem attempt (expressionWithin : StaysWithin bound expression)
    (nestedWithin : StaysWithin bound nested) (innerWithin : StaysWithin (bound - 1) inner) :
    StaysWithin bound (Parser.attempt expression nested inner) := by
  refine acceptThen nestedWithin fun token => ?_
  dsimp only
  split
  · exact classRest innerWithin
  · exact bind (functionRest innerWithin _) fun decl => pure _
  · exact varRest (mono expressionWithin (Nat.sub_le bound 1))

theorem declaration (expressionWithin : StaysWithin bound expression)
    (nestedWithin : StaysWithin bound nested) (innerWithin : StaysWithin (bound - 1) inner) :
    StaysWithin bound (Parser.declaration expression nested inner) :=
  recovering (attempt expressionWithin nestedWithin innerWithin)

mutual

theorem statementAt (bound depth : Nat) (deep : 2 * bound + 1 ≤ depth) :
    StaysWithin bound (Parser.statementAt depth) := by
  cases depth with
  | zero => omega
  | succ depth =>
      by_cases isZero : bound = 0
      · subst isZero
        exact nothing
      · exact statement (expressionAt bound depth (by omega))
          (statementAt (bound - 1) depth (by omega)) (declarationAt (bound - 1) depth (by omega))

theorem declarationAt (bound depth : Nat) (deep : 2 * bound + 2 ≤ depth) :
    StaysWithin bound (Parser.declarationAt depth) := by
  cases depth with
  | zero => omega
  | succ depth =>
      by_cases isZero : bound = 0
      · subst isZero
        exact nothing
      · exact declaration (expressionAt bound depth (by omega)) (statementAt bound depth (by omega))
          (declarationAt (bound - 1) depth (by omega))

end

theorem programAt (bound depth : Nat) (deep : 2 * bound + 2 ≤ depth) :
    StaysWithin bound (Parser.programAt depth) := by
  refine bind remaining fun fuel => ?_
  exact many _ (declarationAt bound depth deep) fuel

end Statements

end StaysWithin

theorem many_eq_error {wanted : Token → Bool} {item : Parser α} {fuel : Nat}
    {cursor after : Cursor} {halt : Halt}
    (halted : many wanted item fuel cursor = .error halt after) :
    ∃ before, item before = .error halt after := by
  induction fuel generalizing cursor with
  | zero => cases halted
  | succ fuel induction =>
      unfold many at halted
      rcases bind_eq_error.1 halted with impossible | ⟨ahead, middle, _, goesOn⟩
      · cases impossible
      · split at goesOn
        · rcases bind_eq_error.1 goesOn with itemHalted | ⟨first, later, _, restHalted⟩
          · exact ⟨middle, itemHalted⟩
          · rcases bind_eq_error.1 restHalted with othersHalted | ⟨_, _, _, impossible⟩
            · exact induction othersHalted
            · cases impossible
        · cases goesOn

/-- A syntax error never leaves the declaration in which it was made. -/
theorem declarationAt_ne_syntaxError (depth : Nat) (cursor after : Cursor) :
    declarationAt depth cursor ≠ .error .syntaxError after := by
  intro halted
  cases depth with
  | zero => cases halted
  | succ depth =>
      unfold declarationAt declaration recovering at halted
      split at halted <;> cases halted

end LoxLang.Parser

namespace LoxLang

/-- No tokens nest so deep that `parse` gives up on them. -/
theorem parse_statements_isSome (tokens : List Token) :
    (parse tokens).statements.isSome = true := by
  have within := Parser.StaysWithin.programAt (tokens.length + 1) (2 * tokens.length + 4) (by omega)
    ⟨tokens, []⟩ (by simp)
  unfold parse parseWithin
  split
  · rfl
  · rename_i halt after halted
    obtain ⟨rfl, _⟩ := within.2 halt after halted
    rcases bind_eq_error.1 halted with impossible | ⟨fuel, middle, _, manyHalted⟩
    · cases impossible
    · obtain ⟨before, declarationHalted⟩ := Parser.many_eq_error manyHalted
      exact (Parser.declarationAt_ne_syntaxError _ before after declarationHalted).elim

end LoxLang
