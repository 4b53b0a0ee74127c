import LoxLang.Proofs.Parser.Loops
import LoxLang.Proofs.Parser.Rereading

/-!
# Taking the same steps on other tokens

A parser decides by the one token ahead.  So a twin of it takes the same steps in
front of other tokens, whether these steps lead to a result or to a syntax error, as
long as the one token after those taken is the same.  After a result it may also be
a token with which nothing goes on.

A twin that recovers where the parser does not may still read on after a syntax
error, but only if that error is inside braces; then the twin has at least made the
same complaint.
-/

namespace LoxLang.Parser

variable {α β γ : Type}

/-- The kinds of tokens with which an expression or a statement may go on that could also have
ended in front of them. -/
def continuing : List TokenKind :=
  [.leftParen, .dot, .comma, .equal, .less, .lessEqual, .greater, .greaterEqual, .bangEqual,
    .equalEqual, .plus, .minus, .star, .slash, .kwAnd, .kwOr, .kwElse]

/-- Nothing goes on with the token ahead. -/
def Closing (others : List Token) : Prop := ∀ token ∈ others.head?, token.kind ∉ continuing

theorem Closing.avoids {kinds : List TokenKind} (continues : ∀ kind ∈ kinds, kind ∈ continuing)
    (others : List Token) (closing : Closing others) : ∀ token ∈ others.head?, token.kind ∉ kinds :=
  fun token isHead among => closing token isHead (continues token.kind among)

/-- A token of this kind is ahead. -/
def AheadIs (kind : TokenKind) (others : List Token) : Prop :=
  ∃ token ∈ others.head?, token.kind = kind

/-- No other tokens. -/
def Never (_ : List Token) : Prop := False

theorem AheadIs.closing {kind : TokenKind} {others : List Token}
    (closes : kind ∉ continuing) (ahead : AheadIs kind others) : Closing others := by
  obtain ⟨token, isHead, rfl⟩ := ahead
  intro other alsoHead
  rw [Option.mem_def] at isHead alsoHead
  obtain rfl : token = other := Option.some.inj (isHead.symm.trans alsoHead)
  exact closes

/-- None of the complaints ends a statement. -/
def Mild (complaints : List Complaint) : Prop :=
  ∀ complaint ∈ complaints, complaint.error.endsStatement = false

/-- Only in front of the end of the text has it been complained about. -/
def Placed (complaints : List Complaint) (rest : List Token) : Prop :=
  ∀ complaint ∈ complaints, complaint.about = none → rest = []

theorem Mild.append {late early : List Complaint} (lateAdmitted : Mild late) (earlyMild : Mild early) :
    Mild (late ++ early) :=
  fun complaint among => (List.mem_append.1 among).elim (lateAdmitted complaint) (earlyMild complaint)

/-- A token that has to be there is taken, or it is complained about its absence. -/
theorem expect_bind {kind : TokenKind} {what : String} {next : Token → Parser β} :
    (expect kind what >>= next) = accept [kind] >>= fun found =>
      match found with
      | some token => next token
      | none => fail (.expected what) := by
  unfold expect
  rw [bind_assoc]
  congr 1
  funext found
  cases found <;> rfl

/-- However a parser ends, it has made these complaints first. -/
def Notes (complaints : List Complaint) : EStateM.Result Halt Cursor α → Prop
  | .ok _ after | .error _ after => complaints <:+ after.complaints

/-- A sequence keeps the complaints of its first part. -/
theorem Notes.bind {complaints : List Complaint} {parser : Parser α} {next : α → Parser β}
    {cursor : Cursor} (notes : Notes complaints (parser cursor))
    (onward : ∀ value, Onward (next value)) : Notes complaints ((parser >>= next) cursor) := by
  cases outcome : parser cursor with
  | error halt after =>
      rw [bind_of_error outcome]
      rw [outcome] at notes
      exact notes
  | ok value middle =>
      rw [bind_of_ok outcome]
      rw [outcome] at notes
      have kept : complaints <:+ middle.complaints := notes
      cases nextOutcome : next value middle with
      | ok result after =>
          obtain ⟨added, _, more, _⟩ := (onward value).onResult middle result after nextOutcome
          exact kept.trans ⟨added, more.symm⟩
      | error halt after =>
          obtain ⟨added, _, more, _⟩ := (onward value).onHalt middle halt after nextOutcome
          exact kept.trans ⟨added, more.symm⟩

/-- Fewer than so many tokens. -/
def Below (bound : Nat) (ahead : List Token) : Prop := ahead.length < bound

theorem Below.tail {bound : Nat} {ahead rest : List Token} {token : Token}
    (isAhead : ahead = token :: rest) (few : Below bound ahead) : Below (bound - 1) rest := by
  rw [Below, isAhead, List.length_cons] at few
  exact Nat.lt_sub_of_add_lt few

/-- What a parser and its twin have in common. -/
structure Terms where
  /-- A parser that yields a result has made no complaint that ends a statement. -/
  calm : Prop
  /-- The twin is in front of the very same tokens. -/
  exact : Prop
  /-- The twin may go on after a syntax error inside braces. -/
  lenient : Prop
  /-- All this is inside braces. -/
  inside : Prop

namespace Terms

/-- What a parser may have complained about on its way to the tokens that are still ahead. -/
def Admits (terms : Terms) (complaints : List Complaint) (rest : List Token) : Prop :=
  (terms.calm → Mild complaints) ∧ Placed complaints rest

/-- The same inside braces. -/
def opened (terms : Terms) : Terms := { terms with inside := True }

/-- The same after a token that has been taken. -/
def past (terms : Terms) (token : Token) : Terms :=
  { terms with inside := terms.inside ∨ token.kind = .leftBrace }

/-- With these tokens taken the twin may go on after a syntax error. -/
def Forgives (terms : Terms) (taken : List Token) : Prop :=
  terms.lenient ∧ (terms.inside ∨ ∃ token ∈ taken, token.kind = .leftBrace)

/-- The twin may be in front of these other tokens. -/
def Fits (terms : Terms) (follow : List Token → Prop) : Outlook := fun rest others =>
  (terms.exact → others = rest) ∧ (SameAhead rest others ∨ follow others)

variable {terms : Terms} {follow narrower wider : List Token → Prop} {rest others : List Token}

theorem Admits.nil : terms.Admits [] rest :=
  ⟨fun _ _ among => absurd among List.not_mem_nil, fun _ among => absurd among List.not_mem_nil⟩

/-- First there were more tokens ahead. -/
theorem Admits.append {late early : List Complaint} {taken : List Token}
    (lateAdmitted : terms.Admits late rest) (earlyAdmitted : terms.Admits early (taken ++ rest)) :
    terms.Admits (late ++ early) rest := by
  refine ⟨fun calm => (lateAdmitted.1 calm).append (earlyAdmitted.1 calm), ?_⟩
  intro complaint among isNone
  rcases List.mem_append.1 among with isLate | isEarly
  · exact lateAdmitted.2 complaint isLate isNone
  · exact (List.append_eq_nil_iff.1 (earlyAdmitted.2 complaint isEarly isNone)).2

theorem Fits.narrow (fits : terms.Fits follow rest others)
    (implies : ∀ others, follow others → wider others) : terms.Fits wider rest others :=
  ⟨fits.1, fits.2.imp_right (implies others)⟩

theorem Fits.append (taken : List Token) (fits : terms.Fits follow rest others) :
    terms.Fits follow (taken ++ rest) (taken ++ others) := by
  refine ⟨fun exact => congrArg (taken ++ ·) (fits.1 exact), ?_⟩
  cases taken with
  | nil => exact fits.2
  | cons token more => exact .inl rfl

/-- In front of the same token everything fits. -/
theorem Fits.cons (token : Token) {taken : List Token} (fits : terms.Fits follow rest others) :
    terms.Fits wider (token :: taken ++ rest) (token :: taken ++ others) :=
  ⟨fun exact => congrArg (token :: taken ++ ·) (fits.1 exact), .inl rfl⟩

theorem Fits.sameAhead (fits : terms.Fits Never rest others) : SameAhead rest others :=
  fits.2.resolve_right id

theorem Forgives.append {taken : List Token} (left : List Token)
    (forgives : terms.Forgives taken) : terms.Forgives (left ++ taken) := by
  obtain ⟨lenient, inside | ⟨token, among, opens⟩⟩ := forgives
  · exact ⟨lenient, .inl inside⟩
  · exact ⟨lenient, .inr ⟨token, List.mem_append_right left among, opens⟩⟩

theorem Forgives.cons {taken : List Token} {token : Token}
    (forgives : (terms.past token).Forgives taken) : terms.Forgives (token :: taken) := by
  obtain ⟨lenient, (inside | opens) | ⟨other, among, opens⟩⟩ := forgives
  · exact ⟨lenient, .inl inside⟩
  · exact ⟨lenient, .inr ⟨token, List.mem_cons_self, opens⟩⟩
  · exact ⟨lenient, .inr ⟨other, List.mem_cons_of_mem token among, opens⟩⟩

end Terms

/-- In front of these tokens the twin retraces the steps of the parser. -/
structure RetracesOn (terms : Terms) (follow domain : List Token → Prop)
    (parser twin : Parser α) : Prop where
  onward : Onward parser
  twinOnward : Onward twin
  onResult : ∀ cursor result after, domain cursor.ahead →
    parser cursor = .ok result after →
      ∃ added taken, after.complaints = added ++ cursor.complaints ∧
        cursor.ahead = taken ++ after.ahead ∧ terms.Admits added after.ahead ∧
        ∀ others earlier, terms.Fits follow after.ahead others →
          twin ⟨taken ++ others, earlier⟩ = .ok result ⟨others, added ++ earlier⟩
  onError : ∀ cursor after, domain cursor.ahead →
    parser cursor = .error .syntaxError after →
      ∃ error added taken, error.endsStatement = true ∧
        after.complaints = ⟨after.ahead.head?, error⟩ :: (added ++ cursor.complaints) ∧
        cursor.ahead = taken ++ after.ahead ∧ terms.Admits added after.ahead ∧
        ∀ others earlier, terms.Fits Never after.ahead others →
          twin ⟨taken ++ others, earlier⟩ =
              .error .syntaxError ⟨others, ⟨others.head?, error⟩ :: (added ++ earlier)⟩ ∨
            terms.Forgives taken ∧ Notes (⟨others.head?, error⟩ :: (added ++ earlier))
              (twin ⟨taken ++ others, earlier⟩)

namespace RetracesOn

variable {terms : Terms} {follow early domain later : List Token → Prop}
  {parser twin : Parser α} {next otherNext : α → Parser β}

theorem mono {smaller : List Token → Prop} (retraces : RetracesOn terms follow domain parser twin)
    (implies : ∀ ahead, smaller ahead → domain ahead) :
    RetracesOn terms follow smaller parser twin :=
  ⟨retraces.onward, retraces.twinOnward,
    fun cursor result after within => retraces.onResult cursor result after (implies _ within),
    fun cursor after within => retraces.onError cursor after (implies _ within)⟩

theorem narrow (retraces : RetracesOn terms early domain parser twin)
    (implies : ∀ others, follow others → early others) :
    RetracesOn terms follow domain parser twin := by
  refine ⟨retraces.onward, retraces.twinOnward, ?_, retraces.onError⟩
  intro cursor result after within succeeded
  obtain ⟨added, taken, complaints, ahead, admitted, same⟩ :=
    retraces.onResult cursor result after within succeeded
  exact ⟨added, taken, complaints, ahead, admitted,
    fun others earlier fits => same others earlier (fits.narrow implies)⟩

theorem near (retraces : RetracesOn terms early domain parser twin) :
    RetracesOn terms Never domain parser twin :=
  retraces.narrow fun _ => False.elim

/-- The same on terms that forgive more. -/
theorem forgiving (retraces : RetracesOn terms follow domain parser twin) {inside : Prop}
    (forgives : ∀ taken, terms.Forgives taken → { terms with inside := inside }.Forgives taken) :
    RetracesOn { terms with inside := inside } follow domain parser twin := by
  refine ⟨retraces.onward, retraces.twinOnward, retraces.onResult, ?_⟩
  intro cursor after within halted
  obtain ⟨error, added, taken, ends, complaints, ahead, admitted, same⟩ :=
    retraces.onError cursor after within halted
  refine ⟨error, added, taken, ends, complaints, ahead, admitted, fun others earlier fits => ?_⟩
  exact (same others earlier fits).imp_right fun ⟨forgiven, notes⟩ => ⟨forgives taken forgiven, notes⟩

theorem past (retraces : RetracesOn terms follow domain parser twin) (token : Token) :
    RetracesOn (terms.past token) follow domain parser twin :=
  retraces.forgiving fun _ ⟨lenient, opened⟩ => ⟨lenient, opened.imp_left .inl⟩

theorem inBraces (retraces : RetracesOn terms.opened follow domain parser twin) {token : Token}
    (isOpening : token.kind = .leftBrace) :
    RetracesOn (terms.past token) follow domain parser twin :=
  retraces.forgiving fun _ ⟨lenient, _⟩ => ⟨lenient, .inl (.inr isOpening)⟩

theorem pure (value : α) : RetracesOn terms follow domain (Pure.pure value) (Pure.pure value) where
  onward := .pure value
  twinOnward := .pure value
  onResult cursor result after _ succeeded := by
    cases succeeded
    exact ⟨[], [], rfl, rfl, .nil, fun _ _ _ => rfl⟩
  onError cursor after _ halted := by cases halted

/-- A parser that has no depth left is no example of anything. -/
theorem tooDeep (twinOnward : Onward twin) :
    RetracesOn terms follow domain (throw .tooDeep) twin where
  onward := Reads.tooDeep _
  twinOnward := twinOnward
  onResult _ _ _ _ succeeded := by cases succeeded
  onError _ _ _ halted := by cases halted

theorem nothing (onward : Onward parser) (twinOnward : Onward twin) :
    RetracesOn terms follow (Below 0) parser twin where
  onward := onward
  twinOnward := twinOnward
  onResult _ _ _ impossible := absurd impossible (Nat.not_lt_zero _)
  onError _ _ impossible := absurd impossible (Nat.not_lt_zero _)

theorem fail (what : String) :
    RetracesOn terms follow domain (Parser.fail (.expected what) : Parser α)
      (Parser.fail (.expected what)) where
  onward := Reads.fail _ _
  twinOnward := Reads.fail _ _
  onResult _ _ _ _ succeeded := by cases succeeded
  onError cursor after _ halted := by
    cases halted
    exact ⟨.expected what, [], [], rfl, rfl, rfl, .nil, fun _ _ _ => .inl rfl⟩

theorem complain (about : Option Token) {error : SyntaxError} (mild : error.endsStatement = false)
    (placed : about = none → ∀ ahead, domain ahead → ahead = []) :
    RetracesOn terms follow domain (Parser.complain about error) (Parser.complain about error) where
  onward := (Reads.complain about error).onward
  twinOnward := (Reads.complain about error).onward
  onResult cursor result after within succeeded := by
    cases succeeded
    refine ⟨[⟨about, error⟩], [], rfl, rfl, ⟨fun _ complaint among => ?_, fun complaint among => ?_⟩,
      fun _ _ _ => rfl⟩
    · rw [List.mem_singleton.1 among]
      exact mild
    · rw [List.mem_singleton.1 among]
      exact fun isNone => placed isNone cursor.ahead within
  onError _ _ _ halted := by cases halted

/-- The second part may see what the first part sees, or it takes a token in any case. -/
theorem bindOr (first : RetracesOn terms early domain parser twin)
    (second : ∀ value, RetracesOn terms follow later (next value) (otherNext value))
    (leads : ∀ cursor value middle, domain cursor.ahead →
      parser cursor = .ok value middle → later middle.ahead)
    (sees : (∀ others, follow others → early others) ∨ ∀ value, Moves (next value)) :
    RetracesOn terms follow domain (parser >>= next) (twin >>= otherNext) where
  onward := .bind first.onward fun value => (second value).onward
  twinOnward := .bind first.twinOnward fun value => (second value).twinOnward
  onResult cursor result after within succeeded := by
    obtain ⟨value, middle, firstSucceeded, nextSucceeded⟩ := bind_eq_ok.1 succeeded
    obtain ⟨added, left, complaints, leftAhead, admitted, firstSame⟩ :=
      first.onResult cursor value middle within firstSucceeded
    obtain ⟨late, right, lateComplaints, rightAhead, lateAdmitted, secondSame⟩ :=
      (second value).onResult middle result after (leads cursor value middle within firstSucceeded) nextSucceeded
    refine ⟨late ++ added, left ++ right, ?_, ?_, lateAdmitted.append (rightAhead ▸ admitted),
      fun others earlier fits => ?_⟩
    · rw [lateComplaints, complaints, List.append_assoc]
    · rw [leftAhead, rightAhead, List.append_assoc]
    · have fitsFirst : terms.Fits early middle.ahead (right ++ others) := by
        rw [rightAhead]
        rcases sees with implies | moves
        · exact (fits.append right).narrow implies
        · obtain ⟨taken, ahead, token, among, _⟩ :=
            (moves value).onResult middle result after nextSucceeded
          obtain rfl : taken = right := List.append_cancel_right (ahead.symm.trans rightAhead)
          cases taken with
          | nil => exact (List.not_mem_nil among).elim
          | cons head taken => exact fits.cons head
      rw [List.append_assoc, bind_of_ok (firstSame _ earlier fitsFirst),
        secondSame others _ fits, List.append_assoc]
  onError cursor after within halted := by
    rcases bind_eq_error.1 halted with firstHalted | ⟨value, middle, firstSucceeded, nextHalted⟩
    · obtain ⟨error, added, taken, ends, complaints, ahead, admitted, same⟩ :=
        first.onError cursor after within firstHalted
      refine ⟨error, added, taken, ends, complaints, ahead, admitted, fun others earlier fits => ?_⟩
      rcases same others earlier fits with halts | ⟨forgiven, notes⟩
      · exact .inl (bind_of_error halts)
      · exact .inr ⟨forgiven, notes.bind fun value => (second value).twinOnward⟩
    · have fewer := first.onward.length_le firstSucceeded
      obtain ⟨added, left, complaints, leftAhead, admitted, firstSame⟩ :=
        first.onResult cursor value middle within firstSucceeded
      obtain ⟨error, late, right, ends, lateComplaints, rightAhead, lateAdmitted, secondSame⟩ :=
        (second value).onError middle after (leads cursor value middle within firstSucceeded) nextHalted
      refine ⟨error, late ++ added, left ++ right, ends, ?_, ?_,
        lateAdmitted.append (rightAhead ▸ admitted), fun others earlier fits => ?_⟩
      · rw [lateComplaints, complaints, List.append_assoc]
      · rw [leftAhead, rightAhead, List.append_assoc]
      · have fitsFirst : terms.Fits early middle.ahead (right ++ others) := by
          rw [rightAhead]
          exact (fits.append right).narrow fun _ => False.elim
        rw [List.append_assoc, bind_of_ok (firstSame _ earlier fitsFirst), List.append_assoc]
        exact (secondSame others _ fits).imp_right fun ⟨forgiven, notes⟩ =>
          ⟨forgiven.append left, notes⟩

/-- The token ahead is only looked at.  If another one may be seen in front of other tokens, that
leads to the same, or the token is taken in any case. -/
theorem lookThen {branch other : Option Token → Parser β}
    (sees : ∀ seen, (∀ others, follow others → other others.head? = other seen) ∨
      ∀ cursor result after, cursor.ahead.head? = seen → branch seen cursor = .ok result after →
        after.ahead.length < cursor.ahead.length)
    (each : ∀ seen, RetracesOn terms follow (fun ahead => domain ahead ∧ ahead.head? = seen)
      (branch seen) (other seen)) :
    RetracesOn terms follow domain (peek >>= branch) (peek >>= other) where
  onward := .bind Reads.peek.onward fun seen => (each seen).onward
  twinOnward := .bind Reads.peek.onward fun seen => (each seen).twinOnward
  onResult cursor result after within succeeded := by
    have goesOn : branch cursor.ahead.head? cursor = .ok result after := succeeded
    obtain ⟨added, taken, complaints, ahead, admitted, same⟩ :=
      (each cursor.ahead.head?).onResult cursor result after ⟨within, rfl⟩ goesOn
    refine ⟨added, taken, complaints, ahead, admitted, fun others earlier fits => ?_⟩
    show other (taken ++ others).head? ⟨taken ++ others, earlier⟩ = _
    have seesSame : other (taken ++ others).head? = other cursor.ahead.head? := by
      rcases fits.2 with sameAhead | follows
      · rw [show (taken ++ others).head? = _ from sameAhead.append taken, ahead]
      · cases taken with
        | cons head taken => rw [ahead]; rfl
        | nil =>
            rcases sees cursor.ahead.head? with leads | takes
            · exact leads others follows
            · have fewer := takes cursor result after rfl goesOn
              rw [ahead, List.nil_append] at fewer
              exact absurd fewer (Nat.lt_irrefl _)
    rw [seesSame]
    exact same others earlier fits
  onError cursor after within halted := by
    have goesOn : branch cursor.ahead.head? cursor = .error .syntaxError after := halted
    obtain ⟨error, added, taken, ends, complaints, ahead, admitted, same⟩ :=
      (each cursor.ahead.head?).onError cursor after ⟨within, rfl⟩ goesOn
    refine ⟨error, added, taken, ends, complaints, ahead, admitted, fun others earlier fits => ?_⟩
    have seesSame : (taken ++ others).head? = cursor.ahead.head? := by
      rw [ahead]
      exact fits.sameAhead.append taken
    have looked : (peek >>= other) ⟨taken ++ others, earlier⟩ =
        other (taken ++ others).head? ⟨taken ++ others, earlier⟩ := rfl
    rw [looked, seesSame]
    exact same others earlier fits

end RetracesOn

/-- On fewer than so many tokens the twin retraces the steps of the parser. -/
abbrev Retraces (terms : Terms) (follow : List Token → Prop) (bound : Nat)
    (parser twin : Parser α) : Prop :=
  RetracesOn terms follow (Below bound) parser twin

namespace Retraces

variable {terms : Terms} {follow early : List Token → Prop} {bound : Nat}
  {parser twin : Parser α} {next otherNext : α → Parser β}

theorem below {smaller : Nat} (retraces : Retraces terms follow bound parser twin)
    (le : smaller ≤ bound) : Retraces terms follow smaller parser twin :=
  retraces.mono fun _ few => Nat.lt_of_lt_of_le few le

/-- The second part may see what the first part sees, or it takes a token in any case. -/
theorem bindOr (first : Retraces terms early bound parser twin)
    (second : ∀ value, Retraces terms follow bound (next value) (otherNext value))
    (sees : (∀ others, follow others → early others) ∨ ∀ value, Moves (next value)) :
    Retraces terms follow bound (parser >>= next) (twin >>= otherNext) :=
  RetracesOn.bindOr first second
    (fun _ _ _ few succeeded => Nat.lt_of_le_of_lt (first.onward.length_le succeeded) few) sees

theorem bind (first : Retraces terms follow bound parser twin)
    (second : ∀ value, Retraces terms follow bound (next value) (otherNext value)) :
    Retraces terms follow bound (parser >>= next) (twin >>= otherNext) :=
  bindOr first second (.inl fun _ => id)

/-- What follows takes a token, so the first part sees that token. -/
theorem thenMoves (first : Retraces terms early bound parser twin)
    (moves : ∀ value, Moves (next value))
    (second : ∀ value, Retraces terms follow bound (next value) (otherNext value)) :
    Retraces terms follow bound (parser >>= next) (twin >>= otherNext) :=
  bindOr first.near second (.inr moves)

/-- With a token of these kinds or without one; that there is none is seen in front of other tokens
as well, or a token is taken in any case. -/
theorem acceptOpening {kinds : List TokenKind} {branch other : Option Token → Parser β}
    (sees : (∀ others, follow others → ∀ token ∈ others.head?, token.kind ∉ kinds) ∨
      Moves (branch none))
    (absent : Retraces terms follow bound (branch none) (other none))
    (present : ∀ token, token.kind ∈ kinds →
      Retraces (terms.past token) follow (bound - 1) (branch (some token)) (other (some token))) :
    Retraces terms follow bound (accept kinds >>= branch) (accept kinds >>= other) where
  onward := .acceptThen absent.onward fun token isOne => (present token isOne).onward
  twinOnward := .acceptThen absent.twinOnward fun token isOne => (present token isOne).twinOnward
  onResult cursor result after few succeeded := by
    obtain ⟨found, middle, accepted, goesOn⟩ := bind_eq_ok.1 succeeded
    rcases accept_eq_ok accepted with ⟨token, rfl, isOne, isAhead, complaints⟩ | ⟨rfl, rfl, isNone⟩
    · obtain ⟨added, taken, more, ahead, admitted, same⟩ := (present token isOne).onResult middle result
        after (Below.tail isAhead few) goesOn
      refine ⟨added, token :: taken, complaints ▸ more, ?_, admitted, fun others earlier fits => ?_⟩
      · rw [isAhead, ahead, List.cons_append]
      · rw [List.cons_append, bind_of_ok (accept_cons isOne _ _)]
        exact same others earlier fits
    · obtain ⟨added, taken, more, ahead, admitted, same⟩ := absent.onResult _ result after few goesOn
      refine ⟨added, taken, more, ahead, admitted, fun others earlier fits => ?_⟩
      rw [bind_of_ok (accept_none ?_)]
      · exact same others earlier fits
      · show ∀ token ∈ (taken ++ others).head?, token.kind ∉ kinds
        cases taken with
        | cons head taken => rwa [ahead] at isNone
        | nil =>
            rcases fits.2 with same | follows
            · rw [ahead, List.nil_append, ← show others.head? = _ from same] at isNone
              exact isNone
            · rcases sees with unwanted | moves
              · exact unwanted others follows
              · have fewer := moves.length_lt goesOn
                rw [ahead, List.nil_append] at fewer
                exact absurd fewer (Nat.lt_irrefl _)
  onError cursor after few halted := by
    rcases bind_eq_error.1 halted with impossible | ⟨found, middle, accepted, goesOn⟩
    · unfold accept at impossible
      split at impossible
      · cases impossible
      · split at impossible <;> cases impossible
    rcases accept_eq_ok accepted with ⟨token, rfl, isOne, isAhead, complaints⟩ | ⟨rfl, rfl, isNone⟩
    · obtain ⟨error, added, taken, ends, more, ahead, admitted, same⟩ := (present token isOne).onError
        middle after (Below.tail isAhead few) goesOn
      refine ⟨error, added, token :: taken, ends, complaints ▸ more, ?_, admitted,
        fun others earlier fits => ?_⟩
      · rw [isAhead, ahead, List.cons_append]
      · rw [List.cons_append, bind_of_ok (accept_cons isOne _ _)]
        exact (same others earlier fits).imp_right fun ⟨forgiven, notes⟩ => ⟨forgiven.cons, notes⟩
    · obtain ⟨error, added, taken, ends, more, ahead, admitted, same⟩ :=
        absent.onError _ after few goesOn
      refine ⟨error, added, taken, ends, more, ahead, admitted, fun others earlier fits => ?_⟩
      rw [bind_of_ok (accept_none ?_)]
      · exact same others earlier fits
      · show ∀ token ∈ (taken ++ others).head?, token.kind ∉ kinds
        rw [ahead, ← show (taken ++ others).head? = _ from fits.sameAhead.append taken] at isNone
        exact isNone

theorem acceptThen {kinds : List TokenKind} {branch other : Option Token → Parser β}
    (sees : (∀ others, follow others → ∀ token ∈ others.head?, token.kind ∉ kinds) ∨
      Moves (branch none))
    (absent : Retraces terms follow bound (branch none) (other none))
    (present : ∀ token, token.kind ∈ kinds →
      Retraces terms follow (bound - 1) (branch (some token)) (other (some token))) :
    Retraces terms follow bound (accept kinds >>= branch) (accept kinds >>= other) :=
  acceptOpening sees absent fun token isOne => (present token isOne).past token

/-- What may follow is no token that would be accepted. -/
theorem optionally {kinds : List TokenKind} {branch other : Option Token → Parser β}
    (continues : ∀ kind ∈ kinds, kind ∈ continuing)
    (absent : Retraces terms Closing bound (branch none) (other none))
    (present : ∀ token, token.kind ∈ kinds →
      Retraces terms Closing (bound - 1) (branch (some token)) (other (some token))) :
    Retraces terms Closing bound (accept kinds >>= branch) (accept kinds >>= other) :=
  acceptThen (.inl (Closing.avoids continues)) absent present

/-- With a token that has to be there. -/
theorem expectOpening {kind : TokenKind} {what : String} {next other : Token → Parser β}
    (goesOn : ∀ token, token.kind = kind →
      Retraces (terms.past token) follow (bound - 1) (next token) (other token)) :
    Retraces terms follow bound (Parser.expect kind what >>= next)
      (Parser.expect kind what >>= other) := by
  rw [expect_bind, expect_bind]
  exact acceptOpening (.inr (.fail _)) (.fail what) fun token isOne =>
    goesOn token (List.mem_singleton.1 isOne)

theorem expectThen {kind : TokenKind} {what : String} {next other : Token → Parser β}
    (goesOn : ∀ token, Retraces terms follow bound (next token) (other token)) :
    Retraces terms follow bound (Parser.expect kind what >>= next)
      (Parser.expect kind what >>= other) :=
  expectOpening fun token _ => ((goesOn token).below (Nat.sub_le bound 1)).past token

/-- With an opening brace that has to be there. -/
theorem expectBrace {what : String} {next other : Token → Parser β}
    (goesOn : ∀ token, Retraces terms.opened follow bound (next token) (other token)) :
    Retraces terms follow bound (Parser.expect .leftBrace what >>= next)
      (Parser.expect .leftBrace what >>= other) :=
  expectOpening fun token isOpening =>
    ((goesOn token).below (Nat.sub_le bound 1)).inBraces isOpening

theorem expect (kind : TokenKind) (what : String) :
    Retraces terms follow bound (Parser.expect kind what) (Parser.expect kind what) := by
  have whole : Retraces terms follow bound (Parser.expect kind what >>= Pure.pure)
      (Parser.expect kind what >>= Pure.pure) := expectThen fun token => .pure token
  rwa [bind_pure] at whole

/-- What comes before a token that has to be there sees that token. -/
theorem thenExpect {kind : TokenKind} {what : String} {next other : α → Token → Parser β}
    (first : Retraces terms early bound parser twin)
    (goesOn : ∀ value token, Retraces terms follow bound (next value token) (other value token)) :
    Retraces terms follow bound (parser >>= fun value => Parser.expect kind what >>= next value)
      (twin >>= fun value => Parser.expect kind what >>= other value) := by
  refine first.thenMoves (fun value => ?_) fun value => expectThen (goesOn value)
  exact .first (.expect what fun _ _ => trivial) fun token => (goesOn value token).onward

/-- The same if that token is an opening brace. -/
theorem thenBrace {what : String} {next other : α → Token → Parser β}
    (first : Retraces terms early bound parser twin)
    (goesOn : ∀ value token,
      Retraces terms.opened follow bound (next value token) (other value token)) :
    Retraces terms follow bound
      (parser >>= fun value => Parser.expect .leftBrace what >>= next value)
      (twin >>= fun value => Parser.expect .leftBrace what >>= other value) := by
  refine first.thenMoves (fun value => ?_) fun value => expectBrace (goesOn value)
  exact .first (.expect what fun _ _ => trivial) fun token => (goesOn value token).onward

/-- Either a token of the kind is ahead and stays there, or other tokens are taken. -/
theorem unlessAhead {kind : TokenKind} {branch other : Bool → Parser β}
    (follows : ∀ others, follow others → AheadIs kind others) (moves : Moves (branch false))
    (each : ∀ isAhead, Retraces terms follow bound (branch isAhead) (other isAhead)) :
    Retraces terms follow bound (isAhead kind >>= branch) (isAhead kind >>= other) := by
  refine .lookThen (fun seen => ?_) fun seen =>
    (each (seen.any (·.kind = kind))).mono fun _ => And.left
  cases same : seen.any (·.kind = kind) with
  | false =>
      exact .inr fun cursor result after _ succeeded => moves.length_lt succeeded
  | true =>
      refine .inl fun others isFollowing => ?_
      obtain ⟨token, isHead, isKind⟩ := follows others isFollowing
      rw [Option.mem_def] at isHead
      simp [isHead, isKind]

end Retraces

end LoxLang.Parser
