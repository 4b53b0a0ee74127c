import LoxLang.Proofs.Parser.Unlimited

/-!
# Reading comes to an end

However malformed a text is, the parser reads it to its end: the depth that it is
given is never used up, its loops end by themselves, it never stands beyond the end
of the text, and every declaration brings it further.
-/

namespace LoxLang.Parser

variable {α : Type}

/-- Started at a place in the tokens, the parser stops there or further on, and not beyond the
end. -/
def StaysInBounds (tokens : List Token) (parser : Parser α) : Prop :=
  ∀ place complaints, place ≤ tokens.length →
    ∃ later added, place ≤ later ∧ later ≤ tokens.length ∧
      match parser ⟨tokens.drop place, complaints⟩ with
      | .ok _ after | .error _ after => after = ⟨tokens.drop later, added ++ complaints⟩

/-- Tokens ahead that are left of those ahead at a place are those ahead at a later place. -/
theorem exists_later {tokens taken rest : List Token} {place : Nat} (inside : place ≤ tokens.length)
    (ahead : tokens.drop place = taken ++ rest) :
    place + taken.length ≤ tokens.length ∧ rest = tokens.drop (place + taken.length) := by
  have length := congrArg List.length ahead
  rw [List.length_drop, List.length_append] at length
  refine ⟨by omega, ?_⟩
  rw [← List.drop_drop, ahead, List.drop_left]

theorem Onward.staysInBounds {parser : Parser α} (onward : Onward parser) (tokens : List Token) :
    StaysInBounds tokens parser := by
  intro place complaints inside
  cases outcome : parser ⟨tokens.drop place, complaints⟩ with
  | ok result after =>
      obtain ⟨added, taken, noted, ahead, _⟩ := onward.onResult _ result after outcome
      obtain ⟨notBeyond, rest⟩ := exists_later inside ahead
      refine ⟨place + taken.length, added, Nat.le_add_right _ _, notBeyond, ?_⟩
      rw [← rest, ← noted]
  | error halt after =>
      obtain ⟨added, taken, noted, ahead, _⟩ := onward.onHalt _ halt after outcome
      obtain ⟨notBeyond, rest⟩ := exists_later inside ahead
      refine ⟨place + taken.length, added, Nat.le_add_right _ _, notBeyond, ?_⟩
      rw [← rest, ← noted]

/-- The loops of the parsers, each with the tokens with which it goes on. -/
structure LoopsSettle (depth : Nat) : Prop where
  program : Settles (fun _ => true) fun fuel => many (fun _ => true) (declarationAt depth) fuel
  block : Settles (·.kind ≠ .rightBrace) fun fuel =>
    many (·.kind ≠ .rightBrace) (declarationAt depth) fuel
  methods : Settles (·.kind ≠ .rightBrace) fun fuel =>
    many (·.kind ≠ .rightBrace) (functionRest (declarationAt depth) "method") fuel
  parameters : ∀ count, Settles (·.kind ∈ [TokenKind.comma]) fun fuel =>
    itemsAfter (expect .identifier "parameter name") .tooManyParameters fuel count
  arguments : ∀ count, Settles (·.kind ∈ [TokenKind.comma]) fun fuel =>
    itemsAfter (expressionAt depth) .tooManyArguments fuel count
  calls : ∀ callee, Settles (·.kind ∈ [TokenKind.leftParen, .dot]) fun fuel =>
    callsAfter (expressionAt depth) fuel callee
  operators : ∀ layer ∈ [id, product, sum, comparison, equality, conjunction], ∀ kinds join left,
    Settles (·.kind ∈ kinds) fun fuel =>
      operatorsAfter (layer (unaryAt depth)) kinds join fuel left

theorem loopsSettle (depth : Nat) : LoopsSettle depth where
  program := (Circles.many (.declarationAt depth)).settles ()
  block := (Circles.many (.declarationAt depth)).settles ()
  methods :=
    have takes := Takes.functionRest (ReadsStatement.declarationAt depth) "method"
    (Circles.many takes.advances).settles ()
  parameters := (Circles.itemsAfter (Reads.expect _ _).onward _).settles
  arguments := (Circles.itemsAfter (ReadsLayer.expressionAt depth).onward _).settles
  calls :=
    (Circles.callsAfter (Reads.items _ (ReadsLayer.expressionAt depth).onward).onward).settles
  operators layer among kinds join left := by
    have unaryReads := ReadsLayer.unaryAt depth
    have onward : Onward (layer (unaryAt depth)) := by
      simp only [List.mem_cons, List.not_mem_nil, or_false] at among
      rcases among with rfl | rfl | rfl | rfl | rfl | rfl
      · exact unaryReads.onward
      · exact (ReadsLayer.product unaryReads).onward
      · exact (ReadsLayer.sum unaryReads).onward
      · exact (ReadsLayer.comparison unaryReads).onward
      · exact (ReadsLayer.equality unaryReads).onward
      · exact (ReadsLayer.conjunction unaryReads).onward
    exact (Circles.operatorsAfter onward kinds join).settles left

/-- Whether a declaration is read or lost, the parser is further on after it. -/
theorem declarationAt_progresses (tokens : List Token) (depth place : Nat)
    (complaints : List Complaint) (inside : place < tokens.length) :
    ∃ later added, later ≤ tokens.length ∧
      ((∃ statement, place < later ∧ declarationAt depth ⟨tokens.drop place, complaints⟩ =
          .ok statement ⟨tokens.drop later, added ++ complaints⟩) ∨
        depth < 2 * (tokens.length - place) + 4 ∧
          declarationAt depth ⟨tokens.drop place, complaints⟩ =
            .error .tooDeep ⟨tokens.drop later, added ++ complaints⟩) := by
  have onward := (ReadsStatement.declarationAt depth).onward
  obtain ⟨later, added, _, notBeyond, stopsAt⟩ :=
    onward.staysInBounds tokens place complaints (Nat.le_of_lt inside)
  refine ⟨later, added, notBeyond, ?_⟩
  cases outcome : declarationAt depth ⟨tokens.drop place, complaints⟩ with
  | ok statement after =>
      rw [outcome] at stopsAt
      obtain rfl : after = _ := stopsAt
      have fewer := Advances.declarationAt depth _ statement _ outcome (by
        simpa [List.drop_eq_nil_iff] using inside)
      simp only [List.length_drop] at fewer
      exact .inl ⟨statement, by omega, rfl⟩
  | error halt after =>
      rw [outcome] at stopsAt
      obtain rfl : after = _ := stopsAt
      have isTooDeep : halt = .tooDeep := by
        cases halt with
        | tooDeep => rfl
        | syntaxError => exact (declarationAt_ne_syntaxError depth _ _ outcome).elim
      subst isTooDeep
      refine .inr ⟨Nat.lt_of_not_le fun deep => ?_, rfl⟩
      obtain ⟨impossible, _⟩ := (StaysWithin.declarationAt (tokens.length - place + 1) depth
        (by omega) _ (by simp)).2 _ _ outcome
      cases impossible

/-- The parser always makes progress and stays in bounds.  It reads whatever tokens it gets to
their end, with any depth that is as much as `parse` allows.  Every declaration that is begun in
front of a token ends further on, however deep it is nested and whatever came before; if it halts
instead, it had been given less depth than that.  No parser leaves the tokens, and no loop ends for
lack of fuel. -/
theorem parse_progresses (tokens : List Token) :
    (∃ statements complaints, parse tokens = ⟨some statements, complaints⟩ ∧
      ∀ depth, 2 * tokens.length + 4 ≤ depth →
        programAt depth ⟨tokens, []⟩ = .ok statements ⟨[], complaints.reverse⟩) ∧
    (∀ depth place complaints, place < tokens.length → ∃ later added, later ≤ tokens.length ∧
      ((∃ statement, place < later ∧ declarationAt depth ⟨tokens.drop place, complaints⟩ =
          .ok statement ⟨tokens.drop later, added ++ complaints⟩) ∨
        depth < 2 * (tokens.length - place) + 4 ∧
          declarationAt depth ⟨tokens.drop place, complaints⟩ =
            .error .tooDeep ⟨tokens.drop later, added ++ complaints⟩)) ∧
    (∀ depth, StaysInBounds tokens (programAt depth) ∧ StaysInBounds tokens (declarationAt depth) ∧
      StaysInBounds tokens (statementAt depth) ∧ StaysInBounds tokens (expressionAt depth) ∧
      StaysInBounds tokens (unaryAt depth)) ∧
    ∀ depth, LoopsSettle depth := by
  refine ⟨?_, declarationAt_progresses tokens, fun depth => ⟨?_, ?_, ?_, ?_, ?_⟩, loopsSettle⟩
  · obtain ⟨statements, complaints, ends⟩ := Unlimited.program_ends ⟨tokens, []⟩
    rw [List.append_nil] at ends
    refine ⟨statements, complaints.reverse, Unlimited.parse_eq ends, fun depth deep => ?_⟩
    rw [List.reverse_reverse, Unlimited.programAt_eq deep, ends]
  · exact (ReadsStatement.programAt depth).onward.staysInBounds tokens
  · exact (ReadsStatement.declarationAt depth).onward.staysInBounds tokens
  · exact (ReadsStatement.statementAt depth .list).onward.staysInBounds tokens
  · exact (ReadsLayer.expressionAt depth).onward.staysInBounds tokens
  · exact (ReadsLayer.unaryAt depth).onward.staysInBounds tokens

end LoxLang.Parser
