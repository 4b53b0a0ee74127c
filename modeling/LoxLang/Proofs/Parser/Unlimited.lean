import LoxLang.Proofs.Parser.DepthRetracing

/-!
# Parsers without a limit

As much depth as the tokens ahead could need is never used up, and more of it makes
no difference.  So the parsers that are given that much have no limit at all: each of
them is made from the others in the way the grammar says.
-/

namespace LoxLang.Parser

variable {α : Type}

/-- The parser of a family with as much depth as the tokens ahead could need. -/
def enough (family : (depth : Nat) → Parser α) : Parser α := fun cursor =>
  family (2 * cursor.ahead.length + 4) cursor

/-- A parser that has not been retraced with a difference does the same as its twin. -/
theorem Retraces.agreeBelow {terms : Terms} {follow : List Token → Prop} {bound : Nat}
    {parser twin : Parser α} (firm : ¬terms.lenient)
    (retraces : Retraces terms follow bound parser twin) (within : StaysWithin bound parser) :
    AgreeBelow bound parser twin := by
  rintro ⟨ahead, complaints⟩ few
  cases outcome : parser ⟨ahead, complaints⟩ with
  | ok result after =>
      obtain ⟨added, taken, more, rest, _, same⟩ := retraces.onResult _ result after few outcome
      dsimp only at more rest
      rw [rest, same after.ahead complaints ⟨fun _ => rfl, .inl rfl⟩, ← more]
  | error halt after =>
      obtain ⟨rfl, _⟩ := (within ⟨ahead, complaints⟩ few).2 halt after outcome
      obtain ⟨error, added, taken, _, more, rest, _, same⟩ := retraces.onError _ after few outcome
      dsimp only at more rest
      rw [rest, (same after.ahead complaints ⟨fun _ => rfl, .inl rfl⟩).resolve_right
        fun ⟨⟨lenient, _⟩, _⟩ => firm lenient, ← more]

/-- Whether inside braces or not, nothing is forgiven. -/
theorem Retraces.anywhere {terms : Terms} {follow : List Token → Prop} {bound : Nat}
    {parser twin : Parser α} (firm : ¬terms.lenient) {inside : Prop}
    (retraces : Retraces terms follow bound parser twin) :
    Retraces { terms with inside := inside } follow bound parser twin :=
  retraces.forgiving fun _ ⟨lenient, _⟩ => absurd lenient firm

/-- Where there is enough depth, more of it makes no difference. -/
structure Deepens (family : (depth : Nat) → Parser α) : Prop where
  onward : ∀ depth, Onward (family depth)
  within : ∀ bound depth, 2 * bound + 2 ≤ depth → StaysWithin bound (family depth)
  retraces : ∀ bound depth deeper, 2 * bound + 2 ≤ deeper →
    Retraces .same Closing bound (family depth) (family deeper)

namespace Deepens

variable {family : (depth : Nat) → Parser α} (deepens : Deepens family)
include deepens

theorem eq_enough {depth : Nat} {cursor : Cursor} (deep : 2 * cursor.ahead.length + 4 ≤ depth) :
    family depth cursor = enough family cursor :=
  ((deepens.retraces (cursor.ahead.length + 1) _ depth (by omega)).agreeBelow id
    (deepens.within _ _ (by omega)) cursor (Nat.lt_succ_self _)).symm

theorem onwardEnough : Onward (enough family) :=
  ⟨fun cursor => (deepens.onward _).onResult cursor, fun cursor => (deepens.onward _).onHalt cursor⟩

/-- Whatever depth was enough, the parser without a limit takes the same steps. -/
theorem retracesEnough (bound depth : Nat) :
    Retraces .same Closing bound (family depth) (enough family) := by
  refine ⟨deepens.onward depth, deepens.onwardEnough, ?_, ?_⟩
  · intro cursor result after few succeeded
    obtain ⟨added, taken, complaints, ahead, admitted, same⟩ :=
      (deepens.retraces (cursor.ahead.length + 1) depth (2 * cursor.ahead.length + 4)
        (by omega)).onResult cursor result after (Nat.lt_succ_self _) succeeded
    refine ⟨added, taken, complaints, ahead, admitted, fun others earlier fits => ?_⟩
    have sameTokens : taken ++ others = cursor.ahead := by rw [fits.1 trivial, ahead]
    rw [← same others earlier fits, sameTokens]
    rfl
  · intro cursor after few halted
    obtain ⟨error, added, taken, ends, complaints, ahead, admitted, same⟩ :=
      (deepens.retraces (cursor.ahead.length + 1) depth (2 * cursor.ahead.length + 4)
        (by omega)).onError cursor after (Nat.lt_succ_self _) halted
    refine ⟨error, added, taken, ends, complaints, ahead, admitted, fun others earlier fits => ?_⟩
    have sameTokens : taken ++ others = cursor.ahead := by rw [fits.1 trivial, ahead]
    have sameEnd := same others earlier fits
    rw [sameTokens] at sameEnd ⊢
    exact sameEnd

/-- What each member with another level of depth does, the parser without a limit does. -/
theorem enough_eq {terms : Terms} {follow : List Token → Prop} {parser : Parser α}
    (firm : ¬terms.lenient)
    (retraces : ∀ bound depth, Retraces terms follow bound (family (depth + 1)) parser) :
    enough family = parser := by
  funext cursor
  rw [← deepens.eq_enough (Nat.le_succ _)]
  exact (retraces (cursor.ahead.length + 1) _).agreeBelow firm (deepens.within _ _ (by omega))
    cursor (Nat.lt_succ_self _)

end Deepens

/-- Two families whose members retrace each other, without a limit. -/
theorem Retraces.enough {terms : Terms} {bound : Nat} {family twin : (depth : Nat) → Parser α}
    (deepens : Deepens family) (twinDeepens : Deepens twin)
    (retraces : ∀ bound depth deeper, 2 * bound + 2 ≤ deeper →
      Retraces terms Closing bound (family depth) (twin deeper)) :
    Retraces terms Closing bound (Parser.enough family) (Parser.enough twin) := by
  refine ⟨deepens.onwardEnough, twinDeepens.onwardEnough, ?_, ?_⟩
  · intro cursor result after _ succeeded
    have each := fun deeper deep => (retraces (cursor.ahead.length + 1) _ deeper deep).onResult
      cursor result after (Nat.lt_succ_self _) succeeded
    obtain ⟨added, taken, complaints, ahead, admitted, _⟩ := each _ (Nat.le_refl _)
    refine ⟨added, taken, complaints, ahead, admitted, fun others earlier fits => ?_⟩
    obtain ⟨added', taken', complaints', ahead', _, same⟩ :=
      each (2 * (cursor.ahead.length + (taken ++ others).length) + 4) (by omega)
    obtain rfl : added' = added := List.append_cancel_right (complaints'.symm.trans complaints)
    obtain rfl : taken' = taken := List.append_cancel_right (ahead'.symm.trans ahead)
    rw [← same others earlier fits]
    exact (twinDeepens.eq_enough (by dsimp only; omega)).symm
  · intro cursor after _ halted
    have each := fun deeper deep => (retraces (cursor.ahead.length + 1) _ deeper deep).onError
      cursor after (Nat.lt_succ_self _) halted
    obtain ⟨error, added, taken, ends, complaints, ahead, admitted, _⟩ := each _ (Nat.le_refl _)
    refine ⟨error, added, taken, ends, complaints, ahead, admitted, fun others earlier fits => ?_⟩
    obtain ⟨error', added', taken', _, complaints', ahead', _, same⟩ :=
      each (2 * (cursor.ahead.length + (taken ++ others).length) + 4) (by omega)
    have sameComplaints := complaints'.symm.trans complaints
    simp only [List.cons.injEq, Complaint.mk.injEq, true_and, List.append_cancel_right_eq]
      at sameComplaints
    obtain ⟨rfl, rfl⟩ := sameComplaints
    obtain rfl : taken' = taken := List.append_cancel_right (ahead'.symm.trans ahead)
    have unlimited : twin (2 * (cursor.ahead.length + (taken' ++ others).length) + 4)
        ⟨taken' ++ others, earlier⟩ = Parser.enough twin ⟨taken' ++ others, earlier⟩ :=
      twinDeepens.eq_enough (by dsimp only; omega)
    rw [← unlimited]
    exact same others earlier fits

theorem Deepens.expressionAt : Deepens Parser.expressionAt where
  onward depth := (ReadsLayer.expressionAt depth).onward
  within bound depth deep := .expressionAt bound depth (by omega)
  retraces bound depth deeper deep := .expressionAt bound depth deeper (by omega)

theorem Deepens.unaryAt : Deepens Parser.unaryAt where
  onward depth := (ReadsLayer.unaryAt depth).onward
  within bound depth deep := .unaryAt bound depth (by omega)
  retraces bound depth deeper deep := .unaryAt bound depth deeper (by omega)

namespace StaysWithin

theorem guard {bound : Nat} {statement : Parser (Stmt Unit)} (within : StaysWithin bound statement)
    (manner : Manner) : StaysWithin bound (manner.guard statement) := by
  cases manner with
  | strict => exact within
  | recovering => exact recovering within

mutual

theorem statementBy (manner : Manner) (bound depth : Nat) (deep : 2 * bound + 1 ≤ depth) :
    StaysWithin bound (Parser.statementBy manner depth) := by
  cases depth with
  | zero => omega
  | succ depth =>
      by_cases isZero : bound = 0
      · subst isZero
        exact nothing
      · exact statement (expressionAt bound depth (by omega))
          (statementBy manner (bound - 1) depth (by omega))
          (declarationBy manner (bound - 1) depth (by omega))

theorem declarationBy (manner : Manner) (bound depth : Nat) (deep : 2 * bound + 2 ≤ depth) :
    StaysWithin bound (Parser.declarationBy manner depth) := by
  cases depth with
  | zero => omega
  | succ depth =>
      by_cases isZero : bound = 0
      · subst isZero
        exact nothing
      · exact guard (attempt (expressionAt bound depth (by omega))
          (statementBy manner bound depth (by omega))
          (declarationBy manner (bound - 1) depth (by omega))) manner

end

end StaysWithin

theorem Deepens.statementBy (manner : Manner) : Deepens (Parser.statementBy manner) where
  onward depth := (Takes.statementBy manner depth).onward
  within bound depth deep := .statementBy manner bound depth (by omega)
  retraces bound depth deeper deep := .statementBy (.same manner) False bound depth deeper (by omega)

theorem Deepens.declarationBy (manner : Manner) : Deepens (Parser.declarationBy manner) where
  onward depth := (ReadsStatement.declarationBy manner depth).onward
  within bound depth deep := .declarationBy manner bound depth deep
  retraces bound depth deeper deep :=
    .anywhere id (.declarationBy (.same manner) bound depth deeper deep)

namespace Unlimited

/-- An expression. -/
def expression : Parser (Expr Unit) := enough expressionAt

/-- An expression of the layer of prefix operators. -/
def unary : Parser (Expr Unit) := enough unaryAt

/-- A statement. -/
def statement (manner : Manner) : Parser (Stmt Unit) := enough (statementBy manner)

/-- A declaration or a statement. -/
def declaration (manner : Manner) : Parser (Stmt Unit) := enough (declarationBy manner)

/-- All statements up to the end of the text. -/
def program (manner : Manner) : Parser (List (Stmt Unit)) :=
  remaining >>= fun fuel => many (fun _ => true) (declaration manner) fuel

theorem reads {family : (depth : Nat) → Parser α} {relation : List Token → α → List Token → Prop}
    (each : ∀ depth, Reads (family depth) relation) : Reads (enough family) relation :=
  ⟨fun cursor => (each _).onResult cursor, fun cursor => (each _).onHalt cursor⟩

theorem takes {family : (depth : Nat) → Parser α} {wanted : Token → Prop}
    (each : ∀ depth, Takes wanted (family depth)) : Takes wanted (enough family) :=
  ⟨reads fun depth => (each depth).onward, fun cursor => (each _).onResult cursor⟩

theorem expression_reads : ReadsLayer expression .assignment := reads ReadsLayer.expressionAt

theorem expression_moves : Moves expression := takes Takes.expressionAt

theorem statement_takes (manner : Manner) : Takes Finishes (statement manner) :=
  takes (Takes.statementBy manner)

theorem declaration_reads (manner : Manner) : ReadsStatement (declaration manner) .list :=
  reads (ReadsStatement.declarationBy manner)

theorem declaration_advances (manner : Manner) : Advances (declaration manner) :=
  fun cursor => Advances.declarationBy manner _ cursor

theorem expression_eq : expression = assignment unary expression := by
  have retraces (bound depth : Nat) : Retraces .same Closing bound (expressionAt (depth + 1))
      (assignment unary expression) :=
    .assignment (Deepens.unaryAt.retracesEnough bound depth)
      (Deepens.expressionAt.retracesEnough (bound - 1) depth)
  exact Deepens.expressionAt.enough_eq id retraces

theorem unary_eq : unary = prefixed unary expression := by
  have retraces (bound depth : Nat) : Retraces .same Closing bound (unaryAt (depth + 1))
      (prefixed unary expression) :=
    .prefixed (Deepens.unaryAt.retracesEnough (bound - 1) depth)
      (Deepens.expressionAt.retracesEnough (bound - 1) depth) (.expressionAt depth)
  exact Deepens.unaryAt.enough_eq id retraces

theorem statement_eq (manner : Manner) :
    statement manner = Parser.statement expression (statement manner) (declaration manner) := by
  have declarations (bound depth : Nat) : Retraces Terms.same.opened Closing bound
      (declarationBy manner depth) (declaration manner) :=
    ((Deepens.declarationBy manner).retracesEnough bound depth).anywhere id
  have retraces (bound depth : Nat) : Retraces .same Closing bound (statementBy manner (depth + 1))
      (Parser.statement expression (statement manner) (declaration manner)) :=
    .statement (Deepens.expressionAt.retracesEnough bound depth)
      (.expressionAt depth) (.expressionAt depth)
      ((Deepens.statementBy manner).retracesEnough (bound - 1) depth)
      (declarations (bound - 1) depth)
      (.declarationBy manner depth) (declaration_advances manner)
  exact (Deepens.statementBy manner).enough_eq id retraces

theorem declaration_eq (manner : Manner) :
    declaration manner =
      manner.guard (attempt expression (statement manner) (declaration manner)) := by
  have guarded (bound depth : Nat) : Retraces Terms.same.opened Closing bound
      (attempt (expressionAt depth) (statementBy manner depth) (declarationBy manner depth))
      (attempt expression (statement manner) (declaration manner)) :=
    .attempt ((Deepens.expressionAt.retracesEnough bound depth).anywhere id)
      (((Deepens.statementBy manner).retracesEnough bound depth).anywhere id)
      (Takes.statementBy manner depth).moves
      (((Deepens.declarationBy manner).retracesEnough (bound - 1) depth).anywhere id)
      (.declarationBy manner depth) (declaration_advances manner)
      (.declarationBy manner depth) (declaration_reads manner)
  have retraces (bound depth : Nat) : Retraces Terms.same.opened Closing bound
      (declarationBy manner (depth + 1))
      (manner.guard (attempt expression (statement manner) (declaration manner))) :=
    Guarded.same manner bound _ _ (guarded bound depth)
  exact (Deepens.declarationBy manner).enough_eq id retraces

variable {terms : Terms} {manner otherManner : Manner}

theorem retraces_expression (bound : Nat) : Retraces terms Closing bound expression expression :=
  .enough .expressionAt .expressionAt fun bound depth deeper deep =>
    .expressionAt bound depth deeper (by omega)

theorem retraces_unary (bound : Nat) : Retraces terms Closing bound unary unary :=
  .enough .unaryAt .unaryAt fun bound depth deeper deep =>
    .unaryAt bound depth deeper (by omega)

theorem retraces_statement (guarded : Guarded terms manner otherManner) (bound : Nat) :
    Retraces terms Closing bound (statement manner) (statement otherManner) :=
  .enough (.statementBy manner) (.statementBy otherManner) fun bound depth deeper deep =>
    .statementBy guarded terms.inside bound depth deeper (by omega)

theorem retraces_declaration (guarded : Guarded terms manner otherManner) (bound : Nat) :
    Retraces terms.opened Closing bound (declaration manner) (declaration otherManner) :=
  .enough (.declarationBy manner) (.declarationBy otherManner) fun bound depth deeper deep =>
    .declarationBy guarded bound depth deeper deep

/-- What a declaration guards is retraced by what another one guards. -/
theorem retraces_attempt (guarded : Guarded terms manner otherManner) (bound : Nat) :
    Retraces terms Closing bound (attempt expression (statement manner) (declaration manner))
      (attempt expression (statement otherManner) (declaration otherManner)) :=
  .attempt (retraces_expression bound) (retraces_statement guarded bound)
    (statement_takes manner).moves (retraces_declaration guarded (bound - 1))
    (declaration_advances manner) (declaration_advances otherManner)
    (declaration_reads manner) (declaration_reads otherManner)

/-- The program of a family's parsers, whichever of its members they are. -/
theorem retraces_program (bound : Nat) {item : Parser (Stmt Unit)} (advances : Advances item)
    (retraces : Retraces .same Closing bound item (declaration manner)) :
    Retraces .same Never bound (remaining >>= fun fuel => many (fun _ => true) item fuel)
      (program manner) :=
  .many retraces advances (declaration_advances manner) (fun _ => False.elim) fun _ => False.elim

/-- With enough depth the program is read as without a limit. -/
theorem programAt_eq {depth : Nat} {cursor : Cursor}
    (deep : 2 * cursor.ahead.length + 4 ≤ depth) :
    programAt depth cursor = program .recovering cursor := by
  have items := (Deepens.declarationBy .recovering).retracesEnough (cursor.ahead.length + 1) depth
  rw [declarationBy_recovering] at items
  have retraces : Retraces .same Never (cursor.ahead.length + 1) (programAt depth)
      (program .recovering) :=
    retraces_program _ (.declarationAt depth) items
  exact retraces.agreeBelow id (.programAt _ depth (by omega)) cursor (Nat.lt_succ_self _)

/-- There is no lack of depth. -/
theorem declaration_halt {cursor after : Cursor} {halt : Halt}
    (halted : declaration manner cursor = .error halt after) : halt = .syntaxError :=
  ((StaysWithin.declarationBy manner (cursor.ahead.length + 1) (2 * cursor.ahead.length + 4)
    (by omega) cursor (Nat.lt_succ_self _)).2 halt after halted).1

theorem program_nil (complaints : List Complaint) :
    program manner ⟨[], complaints⟩ = .ok [] ⟨[], complaints⟩ := rfl

/-- A program is its first statement and the rest of it. -/
theorem program_cons {cursor : Cursor} (notAtEnd : cursor.ahead ≠ []) :
    program manner cursor =
      (declaration manner >>= fun first => do return first :: (← program manner)) cursor := by
  have own : program manner = manyRound (fun _ => true) (declaration manner)
      (fun _ => program manner) () :=
    congrFun (Circles.many (declaration_advances manner)).unfuelled ()
  have looked : manyRound (fun _ => true) (declaration manner) (fun _ => program manner) () cursor =
      (if cursor.ahead.head?.any (fun _ => true) then
        declaration manner >>= fun first => do return first :: (← program manner)
      else pure []) cursor := rfl
  obtain ⟨token, rest, ahead⟩ := List.exists_cons_of_ne_nil notAtEnd
  have round := (congrFun own cursor).trans looked
  rw [ahead] at round
  exact round

/-- What was complained about before makes no difference. -/
theorem program_frame {tokens : List Token} {statements : List (Stmt Unit)}
    {added : List Complaint}
    (succeeded : program manner ⟨tokens, []⟩ = .ok statements ⟨[], added⟩)
    (earlier : List Complaint) :
    program manner ⟨tokens, earlier⟩ = .ok statements ⟨[], added ++ earlier⟩ := by
  have items : Retraces .same Closing (tokens.length + 1) (declaration manner)
      (declaration manner) :=
    .anywhere id (retraces_declaration (.same manner) _)
  obtain ⟨made, taken, complaints, ahead, _, same⟩ :=
    (retraces_program _ (declaration_advances manner) items).onResult ⟨tokens, []⟩ statements _
      (Nat.lt_succ_self _) succeeded
  rw [List.append_nil] at complaints ahead
  dsimp only at complaints ahead
  have result := same [] earlier ⟨fun _ => rfl, .inl rfl⟩
  rwa [List.append_nil, ← ahead, ← complaints] at result

/-- Nothing is ahead when the program has been read. -/
theorem program_atEnd {manner : Manner} {cursor after : Cursor} {statements : List (Stmt Unit)}
    (succeeded : program manner cursor = .ok statements after) : after.ahead = [] := by
  have settles : Settles (fun _ => true) fun fuel =>
      many (fun _ => true) (declaration manner) fuel :=
    (Circles.many (declaration_advances manner)).settles ()
  have stopped := settles.stops cursor cursor.ahead.length statements after (Nat.le_refl _) succeeded
  cases ahead : after.ahead with
  | nil => rfl
  | cons token rest => simp [ahead] at stopped

/-- With recovery the end of the text is always reached. -/
theorem program_ends (cursor : Cursor) :
    ∃ statements added,
      program .recovering cursor = .ok statements ⟨[], added ++ cursor.complaints⟩ := by
  cases outcome : program .recovering cursor with
  | ok statements after =>
      have onward : Onward (program .recovering) :=
        .bind Reads.remaining.onward fun fuel =>
          (Reads.many _ (declaration_reads .recovering).onward fuel).onward
      obtain ⟨added, _, complaints, _⟩ := onward.onResult cursor statements after outcome
      obtain ⟨ahead, afterwards⟩ := after
      obtain rfl : ahead = [] := program_atEnd outcome
      dsimp only at complaints
      exact ⟨statements, added, complaints ▸ rfl⟩
  | error halt after =>
      have outcomeAt := outcome
      rw [← programAt_eq (Nat.le_refl _)] at outcomeAt
      obtain ⟨rfl, _⟩ := (StaysWithin.programAt (cursor.ahead.length + 1) _ (by omega) cursor
        (Nat.lt_succ_self _)).2 halt after outcomeAt
      rcases bind_eq_error.1 outcomeAt with impossible | ⟨fuel, middle, _, manyHalted⟩
      · cases impossible
      · obtain ⟨before, halted⟩ := many_eq_error manyHalted
        exact (declarationAt_ne_syntaxError _ before after halted).elim

/-- What the parser without a limit makes of tokens is what `parse` makes of them. -/
theorem parse_eq {tokens : List Token} {statements : List (Stmt Unit)} {after : Cursor}
    (succeeded : program .recovering ⟨tokens, []⟩ = .ok statements after) :
    parse tokens = ⟨some statements, after.complaints.reverse⟩ := by
  have succeededAt : programAt (2 * tokens.length + 4) ⟨tokens, []⟩ = .ok statements after := by
    rw [← succeeded]
    exact programAt_eq (Nat.le_refl _)
  unfold parse parseWithin
  rw [succeededAt]

end Unlimited

end LoxLang.Parser
