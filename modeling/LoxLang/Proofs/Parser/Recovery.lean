import LoxLang.Proofs.Parser.Unlimited

/-!
# A lost statement costs one complaint

After a syntax error the parser goes on behind the next semicolon or in front of the
next keyword that begins a statement.  A statement without a block has one semicolon,
at its end, so when it is lost nothing else is: what comes after it is read as if it
stood alone.
-/

namespace LoxLang.Parser

/-- Tokens that end in their only semicolon, have no block among them, and no keyword after the
first of them that begins a statement. -/
structure Flat (tokens : List Token) : Prop where
  ends : ∃ body semicolon, tokens = body ++ [semicolon] ∧ semicolon.kind = .semicolon ∧
    ∀ token ∈ body, token.kind ≠ .semicolon
  braceless : ∀ token ∈ tokens, token.kind ≠ .leftBrace
  single : ∀ token ∈ tokens.tail, token.kind.startsStatement = false

namespace Flat

variable {tokens rest : List Token}

theorem tail {token other : Token} (flat : Flat (token :: other :: rest)) :
    token.kind ≠ .semicolon ∧ other.kind.startsStatement = false ∧ Flat (other :: rest) := by
  obtain ⟨body, semicolon, same, isSemicolon, only⟩ := flat.ends
  cases body with
  | nil => simp at same
  | cons first body =>
      obtain ⟨rfl, sameRest⟩ := List.cons.inj same
      refine ⟨only token List.mem_cons_self, flat.single other List.mem_cons_self, ?_, ?_, ?_⟩
      · exact ⟨body, semicolon, sameRest, isSemicolon,
          fun among isIn => only among (List.mem_cons_of_mem token isIn)⟩
      · exact fun among isIn => flat.braceless among (List.mem_cons_of_mem token isIn)
      · exact fun among isIn => flat.single among (List.mem_cons_of_mem other isIn)

theorem last {token : Token} (flat : Flat [token]) : token.kind = .semicolon := by
  obtain ⟨body, semicolon, same, isSemicolon, _⟩ := flat.ends
  cases body with
  | nil =>
      obtain rfl : token = semicolon := by simpa using same
      exact isSemicolon
  | cons first body => simp at same

/-- What is left of the tokens has the same form. -/
theorem suffix (flat : Flat tokens) (left : rest <:+ tokens) (notAll : rest ≠ []) : Flat rest := by
  obtain ⟨taken, rfl⟩ := left
  induction taken with
  | nil => exact flat
  | cons token taken induction =>
      refine induction ?_
      cases more : taken ++ rest with
      | nil => exact absurd (List.append_eq_nil_iff.1 more).2 notAll
      | cons other further =>
          rw [List.cons_append, more] at flat
          exact flat.tail.2.2

/-- Recovery drops the rest of such a statement and nothing after it. -/
theorem skipPast_append {passed : Token} (flat : Flat (passed :: rest)) (later : List Token) :
    skipPast passed (rest ++ later) = later := by
  induction rest generalizing passed with
  | nil =>
      cases later with
      | nil => rfl
      | cons token later => exact if_pos (.inl flat.last)
  | cons token rest induction =>
      obtain ⟨notSemicolon, startsNone, flatRest⟩ := flat.tail
      have goesOn : ¬(passed.kind = .semicolon ∨ token.kind.startsStatement) := by
        simp [notSemicolon, startsNone]
      rw [List.cons_append]
      unfold skipPast
      rw [if_neg goesOn]
      exact induction flatRest

theorem synchronize_append (flat : Flat tokens) (later : List Token) :
    synchronize (tokens ++ later) = later := by
  cases tokens with
  | nil =>
      obtain ⟨body, semicolon, impossible, _⟩ := flat.ends
      simp at impossible
  | cons passed rest => exact flat.skipPast_append later

/-- Whoever takes the semicolon has taken all. -/
theorem eq_nil_of_finishes {taken : List Token} (flat : Flat (taken ++ rest))
    (finishes : ∃ token ∈ taken, Finishes token) : rest = [] := by
  obtain ⟨token, among, isSemicolon | isBrace⟩ := finishes
  · by_contra notAll
    obtain ⟨front, back, rfl⟩ := List.append_of_mem among
    have flatRest : Flat (token :: (back ++ rest)) := by
      refine flat.suffix ⟨front, by simp⟩ (List.cons_ne_nil _ _)
    cases more : back ++ rest with
    | nil => exact notAll (List.append_eq_nil_iff.1 more).2
    | cons other further =>
        rw [more] at flatRest
        exact flatRest.tail.1 isSemicolon
  · exact absurd isBrace (flat.braceless token (List.mem_append_left rest among))

end Flat

namespace Unlimited

/-- Both stop at a syntax error outside braces; inside them the twin goes on. -/
def outsideBraces : Terms := ⟨True, False, True, False⟩

theorem parse_of_declaration {tokens : List Token} {statement : Stmt Unit}
    {complaints : List Complaint} (notEmpty : tokens ≠ [])
    (ends : declaration .recovering ⟨tokens, []⟩ = .ok statement ⟨[], complaints⟩) :
    (parse tokens).complaints = complaints.reverse := by
  have whole : program .recovering ⟨tokens, []⟩ = .ok [statement] ⟨[], complaints⟩ := by
    rw [program_cons notEmpty, bind_of_ok ends]
    rfl
  rw [parse_eq whole]

theorem recovering_of_halt {tokens rest : List Token} {complaints : List Complaint}
    (halts : attempt expression (statement .recovering) (declaration .recovering) ⟨tokens, []⟩ =
      .error .syntaxError ⟨rest, complaints⟩) :
    declaration .recovering ⟨tokens, []⟩ = .ok .lost ⟨synchronize rest, complaints⟩ := by
  rw [declaration_eq]
  show Parser.recovering _ _ = _
  unfold Parser.recovering
  rw [halts]

theorem retraces_outsideBraces (bound : Nat) :
    Retraces outsideBraces Closing bound
      (attempt expression (statement .strict) (declaration .strict))
      (attempt expression (statement .recovering) (declaration .recovering)) :=
  retraces_attempt (.recovers trivial) bound

/-- If nothing stops the reading, the whole statement is read, and no complaint ends it. -/
theorem complaints_mild {tokens : List Token} (flat : Flat tokens) (notEmpty : tokens ≠ [])
    {result : Stmt Unit} {after : Cursor}
    (succeeded : attempt expression (statement .strict) (declaration .strict) ⟨tokens, []⟩ =
      .ok result after) : Mild (parse tokens).complaints := by
  obtain ⟨taken, ahead, finishes⟩ := (Takes.attempt expression_reads
    (statement_takes .strict) (declaration_reads .strict)).onResult _ result after succeeded
  obtain ⟨added, read, _, isRead, ⟨mild, _⟩, same⟩ :=
    (retraces_outsideBraces _).onResult _ result after (Nat.lt_succ_self _) succeeded
  dsimp only at ahead isRead
  have atEnd : after.ahead = [] := (ahead ▸ flat).eq_nil_of_finishes finishes
  rw [atEnd, List.append_nil] at isRead
  have succeeds := same [] [] ⟨False.elim, .inl (by rw [atEnd]; rfl)⟩
  rw [List.append_nil, List.append_nil, ← isRead] at succeeds
  have ends : declaration .recovering ⟨tokens, []⟩ = .ok result ⟨[], added⟩ := by
    rw [declaration_eq]
    show Parser.recovering _ _ = _
    unfold Parser.recovering
    rw [succeeds]
  rw [parse_of_declaration notEmpty ends]
  exact fun complaint among => mild trivial complaint (List.mem_reverse.1 among)

/-- From the first syntax error on, all is dropped up to where the next statement may begin. -/
theorem declaration_drops {tokens : List Token} (flat : Flat tokens) {after : Cursor}
    (halted : attempt expression (statement .strict) (declaration .strict) ⟨tokens, []⟩ =
      .error .syntaxError after) :
    ∃ error added taken, error.endsStatement = true ∧ tokens = taken ++ after.ahead ∧ Mild added ∧
      Placed added after.ahead ∧ ∀ others, SameAhead after.ahead others →
        declaration .recovering ⟨taken ++ others, []⟩ =
          .ok .lost ⟨synchronize others, ⟨others.head?, error⟩ :: added⟩ := by
  obtain ⟨error, added, taken, ends, _, ahead, ⟨mild, placed⟩, same⟩ :=
    (retraces_outsideBraces _).onError _ after (Nat.lt_succ_self _) halted
  dsimp only at ahead
  refine ⟨error, added, taken, ends, ahead, mild trivial, placed, fun others sameAhead => ?_⟩
  have stops := (same others [] ⟨False.elim, .inl sameAhead⟩).resolve_right (by
    rintro ⟨⟨_, inside | ⟨token, isTaken, isBrace⟩⟩, _⟩
    · exact inside
    · exact flat.braceless token (ahead ▸ List.mem_append_left _ isTaken) isBrace)
  rw [List.append_nil] at stops
  exact recovering_of_halt stops

/-- It is lost at one of its own tokens, whatever comes after it. -/
theorem declaration_loses {tokens : List Token} (flat : Flat tokens)
    (fatal : ∃ complaint ∈ (parse tokens).complaints,
      complaint.error.endsStatement = true ∧ complaint.about ≠ none) :
    ∃ added offender error, Mild added ∧ (∀ complaint ∈ added, complaint.about ≠ none) ∧
      error.endsStatement = true ∧ ∀ later,
        declaration .recovering ⟨tokens ++ later, []⟩ =
          .ok .lost ⟨later, ⟨some offender, error⟩ :: added⟩ := by
  have notEmpty : tokens ≠ [] := by
    rintro rfl
    obtain ⟨body, semicolon, impossible, _⟩ := flat.ends
    simp at impossible
  obtain ⟨culprit, among, isFatal, aboutOne⟩ := fatal
  cases outcome : attempt expression (statement .strict) (declaration .strict) ⟨tokens, []⟩ with
  | ok result after =>
      rw [complaints_mild flat notEmpty outcome culprit among] at isFatal
      cases isFatal
  | error halt after =>
      have halted : declaration .strict ⟨tokens, []⟩ = .error halt after := by
        rw [declaration_eq]
        exact outcome
      obtain rfl := declaration_halt halted
      obtain ⟨error, added, taken, ends, ahead, mild, placed, drops⟩ :=
        declaration_drops flat outcome
      cases rest : after.ahead with
      | nil =>
          -- The only complaint that ends a statement is about the end of the text.
          have lost := drops [] (by rw [rest]; rfl)
          rw [rest] at ahead
          rw [← ahead] at lost
          rw [parse_of_declaration notEmpty lost, List.mem_reverse] at among
          rcases List.mem_cons.1 among with rfl | isMild
          · exact absurd rfl aboutOne
          · rw [mild culprit isMild] at isFatal
            cases isFatal
      | cons offender more =>
          refine ⟨added, offender, error, mild, fun complaint isAdded isNone => ?_, ends,
            fun later => ?_⟩
          · rw [placed complaint isAdded isNone] at rest
            cases rest
          · have flatRest : Flat (offender :: more) :=
              flat.suffix ⟨taken, by rw [ahead, rest]⟩ (List.cons_ne_nil _ _)
            have lost : declaration .recovering ⟨taken ++ (offender :: more ++ later), []⟩ =
                .ok .lost
                  ⟨synchronize (offender :: more ++ later), ⟨some offender, error⟩ :: added⟩ :=
              drops _ (by rw [rest]; rfl)
            rw [flatRest.synchronize_append, ← List.append_assoc, ← rest, ← ahead] at lost
            exact lost

end Unlimited

/-- A flat statement that is malformed costs one complaint and nothing else. -/
theorem parse_append_of_flat (tokens later : List Token) (flat : Flat tokens)
    (fatal : ∃ complaint ∈ (parse tokens).complaints,
      complaint.error.endsStatement = true ∧ complaint.about ≠ none) :
    (parse (tokens ++ later)).statements = (parse later).statements.map (.lost :: ·) ∧
      (parse (tokens ++ later)).complaints =
        (parse tokens).complaints ++ (parse later).complaints ∧
      (∀ stop ownStop, (parse (tokens ++ later)).issues stop =
        (parse tokens).issues ownStop ++ (parse later).issues stop) ∧
      (parse tokens).complaints.countP (·.error.endsStatement) = 1 := by
  obtain ⟨added, offender, error, mild, placed, ends, lost⟩ :=
    Unlimited.declaration_loses flat fatal
  have notEmpty : ∀ others, tokens ++ others ≠ [] := by
    intro others
    obtain ⟨body, semicolon, rfl, _⟩ := flat.ends
    simp
  obtain ⟨statements, noted, laterEnds⟩ := Unlimited.program_ends ⟨later, []⟩
  rw [List.append_nil] at laterEnds
  have laterParsed := Unlimited.parse_eq laterEnds
  have ownParsed : (parse tokens).complaints = (⟨some offender, error⟩ :: added).reverse := by
    refine Unlimited.parse_of_declaration ?_ (by simpa using lost [])
    simpa using notEmpty []
  have wholeEnds : Unlimited.program .recovering ⟨tokens ++ later, []⟩ =
      .ok (.lost :: statements) ⟨[], noted ++ ⟨some offender, error⟩ :: added⟩ := by
    rw [Unlimited.program_cons (notEmpty later), bind_of_ok (lost later),
      bind_of_ok (Unlimited.program_frame laterEnds _)]
    rfl
  have wholeParsed := Unlimited.parse_eq wholeEnds
  have complaints : (parse (tokens ++ later)).complaints =
      (parse tokens).complaints ++ (parse later).complaints := by
    rw [wholeParsed, ownParsed, laterParsed, List.reverse_append]
  refine ⟨by rw [wholeParsed, laterParsed]; rfl, complaints, fun stop ownStop => ?_, ?_⟩
  · have aboutTokens : ∀ complaint ∈ (parse tokens).complaints,
        complaint.toIssue stop = complaint.toIssue ownStop := by
      intro complaint among
      rw [ownParsed, List.mem_reverse] at among
      have aboutOne : complaint.about ≠ none := by
        rcases List.mem_cons.1 among with rfl | isAdded
        · exact Option.some_ne_none offender
        · exact placed complaint isAdded
      obtain ⟨token, isToken⟩ := Option.ne_none_iff_exists'.1 aboutOne
      simp only [Complaint.toIssue, isToken]
    simp only [Parse.issues, complaints, List.map_append, List.append_cancel_right_eq]
    exact List.map_congr_left aboutTokens
  · have none : added.countP (·.error.endsStatement) = 0 :=
      List.countP_eq_zero.2 fun complaint isAdded => by simp [mild complaint isAdded]
    rw [ownParsed, List.countP_reverse, List.countP_cons, none]
    simp [ends]

/-- The tokens of `f(1, 2 = 3 +;`, which are lost at the semicolon. -/
def brokenCall : List Token :=
  [⟨⟨1, 0⟩, .identifier, "f"⟩, ⟨⟨1, 1⟩, .leftParen, "("⟩, ⟨⟨1, 2⟩, .number, "1"⟩,
   ⟨⟨1, 3⟩, .comma, ","⟩, ⟨⟨1, 5⟩, .number, "2"⟩, ⟨⟨1, 7⟩, .equal, "="⟩, ⟨⟨1, 9⟩, .number, "3"⟩,
   ⟨⟨1, 11⟩, .plus, "+"⟩, ⟨⟨1, 12⟩, .semicolon, ";"⟩]

/-- The tokens of `print 4; )` on the next line. -/
def strayParenthesis : List Token :=
  [⟨⟨2, 14⟩, .kwPrint, "print"⟩, ⟨⟨2, 20⟩, .number, "4"⟩, ⟨⟨2, 21⟩, .semicolon, ";"⟩,
   ⟨⟨2, 23⟩, .rightParen, ")"⟩]

theorem parse_append_of_flat_brokenCall :
    Flat brokenCall ∧
      (∃ complaint ∈ (parse brokenCall).complaints,
        complaint.error.endsStatement = true ∧ complaint.about ≠ none) ∧
      (parse (brokenCall ++ strayParenthesis)).statements =
        (parse strayParenthesis).statements.map (.lost :: ·) ∧
      (parse (brokenCall ++ strayParenthesis)).complaints =
        (parse brokenCall).complaints ++ (parse strayParenthesis).complaints := by
  have flat : Flat brokenCall := by
    refine ⟨⟨brokenCall.dropLast, ⟨⟨1, 12⟩, .semicolon, ";"⟩, rfl, rfl, ?_⟩, ?_, ?_⟩ <;> decide
  have fatal : ∃ complaint ∈ (parse brokenCall).complaints,
      complaint.error.endsStatement = true ∧ complaint.about ≠ none := by decide +kernel
  obtain ⟨statements, complaints, _⟩ := parse_append_of_flat brokenCall strayParenthesis flat fatal
  exact ⟨flat, fatal, statements, complaints⟩

end LoxLang.Parser
