import LoxLang.Proofs.Parser.StatementCompletion
import LoxLang.Proofs.Parser.Recovery

/-!
# Syntax errors are found at the earliest token

The parser without recovery stops where the parser of programs makes its first complaint
that ends a statement.  What it has taken until then can be completed, and the one token
ahead is enough to make it stop.
-/

namespace LoxLang.Parser

/-- The first complaint for which a statement is given up. -/
def firstFatal (tokens : List Token) : Option Complaint :=
  (parse tokens).complaints.find? (·.error.endsStatement)

/-- Reading stops in front of the token at this place, or of the end of the text. -/
def GivesUpAt (tokens : List Token) (place : Nat) : Prop :=
  place ≤ tokens.length ∧ ∃ complaints,
    Unlimited.program .strict ⟨tokens, []⟩ = .error .syntaxError ⟨tokens.drop place, complaints⟩

namespace Unlimited

/-- There is no lack of depth. -/
theorem program_halt {manner : Manner} {cursor after : Cursor} {halt : Halt}
    (halted : program manner cursor = .error halt after) : halt = .syntaxError := by
  rcases bind_eq_error.1 halted with impossible | ⟨fuel, middle, _, manyHalted⟩
  · cases impossible
  · obtain ⟨before, itemHalted⟩ := many_eq_error manyHalted
    exact declaration_halt itemHalted

/-- Without recovery the program is read in the same way until it stops. -/
theorem retraces_strictly (bound : Nat) :
    Retraces strictly Never bound (program .strict) (program .strict) := by
  have items : Retraces strictly Closing bound (declaration .strict) (declaration .strict) :=
    .anywhere id (retraces_declaration (.strict strictly) bound)
  exact .many items (declaration_advances .strict) (declaration_advances .strict)
    (fun _ => False.elim) fun _ => False.elim

/-- With recovery the program is read in the same way until a statement is lost. -/
theorem retraces_recovering (bound : Nat) :
    Retraces outsideBraces.opened Never bound (program .strict) (program .recovering) :=
  .many (retraces_declaration (.recovers trivial) bound) (declaration_advances .strict)
    (declaration_advances .recovering) (fun _ => False.elim) fun _ => False.elim

/-- A program that is read without recovery has lost no statement. -/
theorem mild_of_strict {tokens : List Token} {statements : List (Stmt Unit)} {after : Cursor}
    (succeeded : program .strict ⟨tokens, []⟩ = .ok statements after) :
    Mild (parse tokens).complaints := by
  obtain ⟨added, taken, _, ahead, ⟨mild, _⟩, same⟩ :=
    (retraces_recovering _).onResult _ statements after (Nat.lt_succ_self _) succeeded
  have recovers := same after.ahead [] ⟨False.elim, .inl rfl⟩
  dsimp only at ahead
  rw [← ahead, List.append_nil] at recovers
  rw [parse_eq recovers]
  exact fun complaint among => mild trivial complaint (List.mem_reverse.1 among)

/-- The complaint with which reading stops is the first one that ends a statement. -/
theorem firstFatal_of_strict {tokens : List Token} {after : Cursor}
    (halted : program .strict ⟨tokens, []⟩ = .error .syntaxError after) :
    firstFatal tokens = after.complaints.head? := by
  obtain ⟨error, added, taken, ends, complaints, ahead, ⟨mild, _⟩, same⟩ :=
    (retraces_recovering _).onError _ after (Nat.lt_succ_self _) halted
  dsimp only at ahead complaints
  obtain ⟨statements, noted, recovered⟩ := program_ends ⟨tokens, []⟩
  rw [List.append_nil] at recovered
  obtain ⟨late, kept⟩ : ⟨after.ahead.head?, error⟩ :: (added ++ []) <:+ noted := by
    have either := same after.ahead [] ⟨False.elim, .inl rfl⟩
    rw [← ahead, recovered] at either
    exact either.elim (fun impossible => by cases impossible) And.right
  have noneBefore : added.reverse.find? (·.error.endsStatement) = none :=
    List.find?_eq_none.2 fun complaint among => by
      simp [mild trivial complaint (List.mem_reverse.1 among)]
  rw [firstFatal, parse_eq recovered, ← kept, complaints]
  simp only [List.append_nil, List.reverse_append, List.reverse_cons, List.append_assoc,
    List.find?_append, noneBefore, Option.none_or, List.cons_append, List.nil_append,
    List.head?_cons]
  exact List.find?_cons_of_pos ends

/-- Where reading stops, it stops in front of whatever begins with the same token. -/
theorem strict_stops {tokens : List Token} {after : Cursor}
    (halted : program .strict ⟨tokens, []⟩ = .error .syntaxError after) :
    ∃ taken error, tokens = taken ++ after.ahead ∧
      after.complaints.head? = some ⟨after.ahead.head?, error⟩ ∧
      ∀ others, SameAhead after.ahead others → ∃ complaints,
        program .strict ⟨taken ++ others, []⟩ = .error .syntaxError ⟨others, complaints⟩ ∧
          complaints.head? = some ⟨others.head?, error⟩ := by
  obtain ⟨error, added, taken, _, complaints, ahead, _, same⟩ :=
    (retraces_strictly _).onError _ after (Nat.lt_succ_self _) halted
  refine ⟨taken, error, ahead, by rw [complaints]; rfl, fun others sees => ?_⟩
  obtain halts | ⟨⟨impossible, _⟩, _⟩ := same others [] ⟨False.elim, .inl sees⟩
  · exact ⟨_, halts, rfl⟩
  · exact impossible.elim

/-- What has been taken when reading stops is the beginning of a program. -/
theorem strict_completes {tokens taken : List Token} {after : Cursor}
    (halted : program .strict ⟨tokens, []⟩ = .error .syntaxError after)
    (ahead : tokens = taken ++ after.ahead) :
    ∃ more, Mild (parse (taken ++ more)).complaints := by
  obtain ⟨taken', ahead', completed⟩ :=
    (program_completable _).mends _ after (Nat.lt_succ_self _) halted
  obtain rfl : taken = taken' := List.append_cancel_right (ahead.symm.trans ahead')
  rcases completed with rfl | ⟨more, accepts⟩
  · exact ⟨[], mild_of_strict (program_nil [])⟩
  · obtain ⟨statements, added, succeeds⟩ := accepts [] [] rfl
    rw [List.append_nil] at succeeds
    exact ⟨more, mild_of_strict succeeds⟩

end Unlimited

/-- A syntax error is found at the earliest possible token.  The tokens before it are the beginning
of a text without such an error, and whatever text begins with these tokens and the offending one
is given up at it too. -/
theorem parse_givesUp_earliest (tokens : List Token)
    (fatal : ∃ complaint ∈ (parse tokens).complaints, complaint.error.endsStatement = true) :
    ∃ place error, GivesUpAt tokens place ∧ firstFatal tokens = some ⟨tokens[place]?, error⟩ ∧
      (∃ more, ∀ complaint ∈ (parse (tokens.take place ++ more)).complaints,
        complaint.error.endsStatement = false) ∧
      (place < tokens.length → ∀ others, tokens.take (place + 1) <+: others →
        GivesUpAt others place ∧ firstFatal others = some ⟨tokens[place]?, error⟩) := by
  obtain ⟨culprit, among, ends⟩ := fatal
  cases outcome : Unlimited.program .strict ⟨tokens, []⟩ with
  | ok statements after =>
      have mild := Unlimited.mild_of_strict outcome culprit among
      rw [ends] at mild
      cases mild
  | error halt after =>
      obtain rfl := Unlimited.program_halt outcome
      obtain ⟨taken, error, rest, first, stops⟩ := Unlimited.strict_stops outcome
      have completes := Unlimited.strict_completes outcome rest
      have isFirst := (Unlimited.firstFatal_of_strict outcome).trans first
      obtain ⟨ahead, complaints⟩ := after
      dsimp only at rest stops isFirst
      subst rest
      have isOffending : (taken ++ ahead)[taken.length]? = ahead.head? := by
        rw [List.getElem?_append_right (Nat.le_refl _), Nat.sub_self, List.head?_eq_getElem?]
      refine ⟨taken.length, error, ⟨by simp, complaints, by simpa using outcome⟩,
        isOffending ▸ isFirst, by simp only [List.take_left]; exact completes, ?_⟩
      rintro isInside others ⟨later, rfl⟩
      rw [isOffending]
      cases ahead with
      | nil => simp at isInside
      | cons offender left =>
          obtain ⟨noted, halts, same⟩ := stops (offender :: later) rfl
          have sameOthers : (taken ++ offender :: left).take (taken.length + 1) ++ later =
              taken ++ offender :: later := by
            rw [List.take_length_add_append, List.append_assoc]
            rfl
          rw [sameOthers]
          exact ⟨⟨by simp, noted, by simpa using halts⟩,
            (Unlimited.firstFatal_of_strict halts).trans same⟩

/-- The tokens of `print 1 + ; )`, which stop making sense at the semicolon. -/
def unfinishedSum : List Token :=
  [⟨⟨1, 0⟩, .kwPrint, "print"⟩, ⟨⟨1, 6⟩, .number, "1"⟩, ⟨⟨1, 8⟩, .plus, "+"⟩,
   ⟨⟨1, 10⟩, .semicolon, ";"⟩, ⟨⟨1, 12⟩, .rightParen, ")"⟩]

theorem parse_givesUp_earliest_unfinishedSum :
    (∃ complaint ∈ (parse unfinishedSum).complaints, complaint.error.endsStatement = true) ∧
      ∃ place error, GivesUpAt unfinishedSum place ∧
        firstFatal unfinishedSum = some ⟨unfinishedSum[place]?, error⟩ ∧
        ∃ more, ∀ complaint ∈ (parse (unfinishedSum.take place ++ more)).complaints,
          complaint.error.endsStatement = false := by
  have fatal : ∃ complaint ∈ (parse unfinishedSum).complaints,
      complaint.error.endsStatement = true := by decide +kernel
  obtain ⟨place, error, givesUp, first, completes, _⟩ := parse_givesUp_earliest unfinishedSum fatal
  exact ⟨fatal, place, error, givesUp, first, completes⟩

end LoxLang.Parser
