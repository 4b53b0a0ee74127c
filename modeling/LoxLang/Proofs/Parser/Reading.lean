import LoxLang.Parser.Cursor
import LoxLang.Proofs.Stateful

/-!
# What parsers read

`Reads parser relation` says what a parser that yields a result has done: it has
taken some tokens off those ahead, it has only added to the complaints, and, if
it added none, the tokens taken, the result and the tokens still ahead are
related.
-/

namespace LoxLang.Parser

variable {α β : Type}

/-- What a parser has done when it yields a result, and when it halts: a syntax error is always
complained about. -/
structure Reads (parser : Parser α) (relation : List Token → α → List Token → Prop) : Prop where
  onResult : ∀ cursor result after, parser cursor = .ok result after →
    ∃ added taken, after.complaints = added ++ cursor.complaints ∧
      cursor.ahead = taken ++ after.ahead ∧ (added = [] → relation taken result after.ahead)
  onHalt : ∀ cursor halt after, parser cursor = .error halt after →
    ∃ added taken, after.complaints = added ++ cursor.complaints ∧
      cursor.ahead = taken ++ after.ahead ∧ (halt = .syntaxError → added ≠ [])

namespace Reads

variable {parser : Parser α} {relation weaker : List Token → α → List Token → Prop}

theorem mono (reads : Reads parser relation)
    (implies : ∀ taken result rest, relation taken result rest → weaker taken result rest) :
    Reads parser weaker := by
  refine ⟨?_, reads.onHalt⟩
  intro cursor result after succeeded
  obtain ⟨added, taken, complaints, ahead, related⟩ := reads.onResult cursor result after succeeded
  exact ⟨added, taken, complaints, ahead, fun quiet => implies _ _ _ (related quiet)⟩

/-- The next step starts where the first one stopped, and may rely on what the first one read. -/
theorem bind {next : α → Parser β} {target : List Token → β → List Token → Prop}
    (firstReads : Reads parser relation)
    (nextReads : ∀ value left, Reads (next value) fun right result rest =>
      relation left value (right ++ rest) → target (left ++ right) result rest) :
    Reads (parser >>= next) target := by
  constructor
  · intro cursor result after succeeded
    obtain ⟨value, middle, firstSucceeded, nextSucceeded⟩ := bind_eq_ok.1 succeeded
    obtain ⟨early, left, earlyComplaints, leftAhead, leftRelated⟩ :=
      firstReads.onResult cursor value middle firstSucceeded
    obtain ⟨late, right, lateComplaints, rightAhead, rightRelated⟩ :=
      (nextReads value left).onResult middle result after nextSucceeded
    refine ⟨late ++ early, left ++ right, ?_, ?_, ?_⟩
    · rw [lateComplaints, earlyComplaints, List.append_assoc]
    · rw [leftAhead, rightAhead, List.append_assoc]
    · intro quiet
      obtain ⟨lateQuiet, earlyQuiet⟩ := List.append_eq_nil_iff.1 quiet
      exact rightRelated lateQuiet (rightAhead ▸ leftRelated earlyQuiet)
  · intro cursor halt after halted
    rcases bind_eq_error.1 halted with firstHalted | ⟨value, middle, firstSucceeded, nextHalted⟩
    · exact firstReads.onHalt cursor halt after firstHalted
    · obtain ⟨early, left, earlyComplaints, leftAhead, _⟩ :=
        firstReads.onResult cursor value middle firstSucceeded
      obtain ⟨late, right, lateComplaints, rightAhead, noted⟩ :=
        (nextReads value left).onHalt middle halt after nextHalted
      refine ⟨late ++ early, left ++ right, ?_, ?_, ?_⟩
      · rw [lateComplaints, earlyComplaints, List.append_assoc]
      · rw [leftAhead, rightAhead, List.append_assoc]
      · intro syntaxError quiet
        exact noted syntaxError (List.append_eq_nil_iff.1 quiet).1

theorem pure {value : α} (related : ∀ rest, relation [] value rest) :
    Reads (Pure.pure value) relation := by
  constructor
  · intro cursor result after succeeded
    cases succeeded
    exact ⟨[], [], rfl, rfl, fun _ => related _⟩
  · intro cursor halt after halted
    cases halted

theorem tooDeep (relation : List Token → α → List Token → Prop) :
    Reads (MonadExcept.throw .tooDeep) relation := by
  constructor
  · intro cursor result after succeeded
    cases succeeded
  · intro cursor halt after halted
    cases halted
    exact ⟨[], [], rfl, rfl, fun syntaxError => nomatch syntaxError⟩

theorem fail (error : SyntaxError) (relation : List Token → α → List Token → Prop) :
    Reads (Parser.fail error) relation := by
  constructor
  · intro cursor result after succeeded
    cases succeeded
  · intro cursor halt after halted
    cases halted
    exact ⟨[⟨cursor.ahead.head?, error⟩], [], rfl, rfl, fun _ => List.cons_ne_nil _ _⟩

/-- A complaint is no quiet step. -/
theorem complain (about : Option Token) (error : SyntaxError) :
    Reads (Parser.complain about error) fun _ _ _ => False := by
  constructor
  · intro cursor result after succeeded
    cases succeeded
    exact ⟨[⟨about, error⟩], [], rfl, rfl, fun quiet => nomatch quiet⟩
  · intro cursor halt after halted
    cases halted

theorem peek : Reads Parser.peek fun taken result rest => taken = [] ∧ result = rest.head? := by
  constructor
  · intro cursor result after succeeded
    cases succeeded
    exact ⟨[], [], rfl, rfl, fun _ => ⟨rfl, rfl⟩⟩
  · intro cursor halt after halted
    cases halted

theorem remaining : Reads Parser.remaining fun taken result rest =>
    taken = [] ∧ result = rest.length := by
  constructor
  · intro cursor result after succeeded
    cases succeeded
    exact ⟨[], [], rfl, rfl, fun _ => ⟨rfl, rfl⟩⟩
  · intro cursor halt after halted
    cases halted

/-- Either the token ahead is of a wanted kind and taken, or it is not and stays ahead. -/
theorem accept (kinds : List TokenKind) : Reads (Parser.accept kinds) fun taken result rest =>
    (∃ token, result = some token ∧ taken = [token] ∧ token.kind ∈ kinds) ∨
      (result = none ∧ taken = [] ∧ ∀ token ∈ rest.head?, token.kind ∉ kinds) := by
  constructor
  · intro cursor result after succeeded
    obtain ⟨ahead, complaints⟩ := cursor
    unfold Parser.accept at succeeded
    cases ahead with
    | nil =>
        cases succeeded
        exact ⟨[], [], rfl, rfl, fun _ => .inr ⟨rfl, rfl, by simp⟩⟩
    | cons token rest =>
        by_cases wanted : token.kind ∈ kinds
        · simp only [wanted, if_true] at succeeded
          cases succeeded
          exact ⟨[], [token], rfl, rfl, fun _ => .inl ⟨token, rfl, rfl, wanted⟩⟩
        · simp only [wanted, if_false] at succeeded
          cases succeeded
          exact ⟨[], [], rfl, rfl, fun _ => .inr ⟨rfl, rfl, by simpa using wanted⟩⟩
  · intro cursor halt after halted
    unfold Parser.accept at halted
    split at halted
    · cases halted
    · split at halted <;> cases halted

variable {next : Token → Parser β} {branch : Option Token → Parser β}
  {target : List Token → β → List Token → Prop}

/-- Go on one way with a token of a wanted kind, and another way if there is none ahead. -/
theorem acceptThen (kinds : List TokenKind)
    (absent : Reads (branch none) fun taken result rest =>
      (∀ token ∈ (taken ++ rest).head?, token.kind ∉ kinds) → target taken result rest)
    (present : ∀ token, Reads (branch (some token)) fun taken result rest =>
      token.kind ∈ kinds → target (token :: taken) result rest) :
    Reads (Parser.accept kinds >>= branch) target := by
  refine bind (accept kinds) fun found left => ?_
  cases found with
  | none =>
      refine absent.mono ?_
      rintro taken result rest goesOn (⟨_, same, _⟩ | ⟨_, rfl, unwanted⟩)
      · cases same
      · exact goesOn unwanted
  | some token =>
      refine (present token).mono ?_
      rintro taken result rest goesOn (⟨_, same, rfl, wanted⟩ | ⟨same, _⟩)
      · cases same
        exact goesOn wanted
      · cases same

theorem expect (kind : TokenKind) (what : String) :
    Reads (Parser.expect kind what) fun taken result _ =>
      taken = [result] ∧ result.kind = kind := by
  refine acceptThen [kind] (fail _ _) fun token => pure fun rest wanted => ?_
  exact ⟨rfl, by simpa using wanted⟩

theorem expectThen (kind : TokenKind) (what : String)
    (goesOn : ∀ token, Reads (next token) fun taken result rest =>
      token.kind = kind → target (token :: taken) result rest) :
    Reads (Parser.expect kind what >>= next) target := by
  refine bind (expect kind what) fun token left => (goesOn token).mono ?_
  rintro taken result rest related ⟨rfl, same⟩
  exact related same

theorem isAhead (kind : TokenKind) : Reads (Parser.isAhead kind) fun taken result rest =>
    taken = [] ∧ result = rest.head?.any (·.kind = kind) := by
  refine bind peek fun ahead left => pure ?_
  rintro rest ⟨rfl, rfl⟩
  exact ⟨rfl, rfl⟩

end Reads

/-- Items read one after the other from the pieces of some tokens. -/
inductive Sequence (relation : List Token → α → Prop) : List Token → List α → Prop where
  | nil : Sequence relation [] []
  | cons {piece taken : List Token} {item : α} {items : List α} : relation piece item →
      Sequence relation taken items → Sequence relation (piece ++ taken) (item :: items)

/-- A comma and the item after it. -/
def AfterComma (relation : List Token → α → Prop) (taken : List Token) (item : α) : Prop :=
  ∃ comma piece, taken = comma :: piece ∧ comma.kind = .comma ∧ relation piece item

/-- Items with commas between them; there may be none. -/
def Separated (relation : List Token → α → Prop) (taken : List Token) : List α → Prop
  | [] => taken = []
  | first :: others => ∃ piece more, taken = piece ++ more ∧ relation piece first ∧
      Sequence (AfterComma relation) more others

theorem skipPast_suffix (passed : Token) (tokens : List Token) :
    skipPast passed tokens <:+ tokens := by
  induction tokens generalizing passed with
  | nil => exact List.suffix_refl _
  | cons token rest induction =>
      unfold skipPast
      split
      · exact List.suffix_refl _
      · exact (induction token).trans (List.suffix_cons token rest)

/-- What is dropped to find the next statement are the tokens directly ahead. -/
theorem synchronize_suffix (tokens : List Token) : synchronize tokens <:+ tokens := by
  cases tokens with
  | nil => exact List.suffix_refl _
  | cons offender rest => exact (skipPast_suffix offender rest).trans (List.suffix_cons _ _)

namespace Reads

variable {item : Parser α} {relation : List Token → α → Prop}

/-- The loop ends when nothing wanted is ahead, if it has not gone round as often as it may. -/
theorem many (wanted : Token → Bool) (itemReads : Reads item fun taken result _ =>
    relation taken result) (fuel : Nat) :
    Reads (Parser.many wanted item fuel) fun taken results rest =>
      Sequence relation taken results ∧
        (results.length = fuel ∨ rest.head?.any wanted = false) := by
  induction fuel with
  | zero => exact pure fun rest => ⟨.nil, .inl rfl⟩
  | succ fuel induction =>
      unfold Parser.many
      refine bind peek fun ahead left => ?_
      by_cases goesOn : ahead.any wanted = true
      · simp only [goesOn, if_true]
        refine bind itemReads fun first piece => ?_
        refine bind induction fun others more => pure ?_
        rintro rest ⟨sequence, ended⟩ related ⟨rfl, _⟩
        refine ⟨by simpa using Sequence.cons related sequence, ?_⟩
        simpa using ended
      · simp only [goesOn, if_false, Bool.false_eq_true]
        refine pure ?_
        rintro rest ⟨rfl, rfl⟩
        exact ⟨.nil, .inr (by simpa using goesOn)⟩

/-- Each item beyond the limit would have been complained about. -/
theorem itemsAfter (excess : SyntaxError)
    (itemReads : Reads item fun taken result _ => relation taken result) (fuel count : Nat) :
    Reads (Parser.itemsAfter item excess fuel count) fun taken results _ =>
      Sequence (AfterComma relation) taken results ∧
        (count ≤ itemLimit → count + results.length ≤ itemLimit) := by
  induction fuel generalizing count with
  | zero => exact pure fun rest => ⟨.nil, fun within => within⟩
  | succ fuel induction =>
      unfold Parser.itemsAfter
      refine acceptThen [.comma] ?absent fun comma => ?present
      case absent => exact pure fun rest _ => ⟨.nil, fun within => within⟩
      case present =>
          have oneMore : Reads (do
              let next ← item
              let rest ← Parser.itemsAfter item excess fuel (count + 1)
              return next :: rest) fun taken results _ =>
                ∃ first others piece more, results = first :: others ∧ taken = piece ++ more ∧
                  relation piece first ∧ Sequence (AfterComma relation) more others ∧
                  (count < itemLimit → count + results.length ≤ itemLimit) := by
            refine bind itemReads fun first piece => ?_
            refine bind (induction (count + 1)) fun others more => pure ?_
            rintro rest ⟨sequence, few⟩ related
            refine ⟨first, others, piece, more, rfl, by simp, related, sequence, ?_⟩
            intro below
            have := few below
            simp only [List.length_cons]
            omega
          by_cases full : itemLimit ≤ count
          · simp only [full, if_true]
            refine bind peek fun about none => ?_
            refine bind (complain about excess) fun _ none' => oneMore.mono ?_
            intro taken results rest _ impossible
            exact impossible.elim
          · simp only [full, if_false]
            refine oneMore.mono ?_
            rintro taken results rest ⟨first, others, piece, more, rfl, rfl, related, sequence, few⟩
              isComma
            refine ⟨?_, fun _ => few (by omega)⟩
            exact Sequence.cons ⟨comma, piece, rfl, by simpa using isComma, related⟩ sequence

theorem items (excess : SyntaxError)
    (itemReads : Reads item fun taken result _ => relation taken result) :
    Reads (Parser.items item excess) fun taken results _ =>
      Separated relation taken results ∧ results.length ≤ itemLimit := by
  refine bind (isAhead .rightParen) fun closes left => ?_
  cases closes with
  | true =>
      refine pure ?_
      rintro rest ⟨rfl, _⟩
      exact ⟨rfl, Nat.zero_le _⟩
  | false =>
      refine bind itemReads fun first piece => ?_
      refine bind remaining fun fuel none => ?_
      refine bind (itemsAfter excess itemReads fuel 1) fun others more => pure ?_
      rintro rest ⟨sequence, few⟩ ⟨rfl, _⟩ related ⟨rfl, _⟩
      refine ⟨⟨piece, more, by simp, related, sequence⟩, ?_⟩
      simpa [Nat.add_comm] using few (by decide)

/-- A statement that was lost has been complained about. -/
theorem recovering {S : Type} {statement : Parser (Stmt S)}
    {target : List Token → Stmt S → List Token → Prop} (statementReads : Reads statement target) :
    Reads (Parser.recovering statement) target := by
  constructor
  · intro cursor result after succeeded
    unfold Parser.recovering at succeeded
    split at succeeded
    · rename_i inner middle innerResult
      cases succeeded
      exact statementReads.onResult cursor result after innerResult
    · rename_i middle innerResult
      cases succeeded
      obtain ⟨added, taken, complaints, ahead, noted⟩ :=
        statementReads.onHalt cursor .syntaxError middle innerResult
      obtain ⟨dropped, rest⟩ := synchronize_suffix middle.ahead
      refine ⟨added, taken ++ dropped, complaints, ?_, ?_⟩
      · simp only [List.append_assoc, rest, ahead]
      · intro quiet
        exact (noted rfl quiet).elim
    · cases succeeded
  · intro cursor halt after halted
    unfold Parser.recovering at halted
    split at halted
    · cases halted
    · cases halted
    · rename_i innerResult
      cases halted
      exact statementReads.onHalt cursor .tooDeep after innerResult

end Reads

end LoxLang.Parser
