import LoxLang.Proofs.Lexicon.Placing
import LoxLang.Token.Listing

/-!
# An account of every character

Between the tokens of a text there are gaps: blanks, comments, single characters with which
no lexeme begins, and perhaps quotes that stay open up to the end.  Each character is in one
token or in one gap.  The issues of a text are those of its gaps, one for each stray
character and one for open quotes.
-/

namespace LoxLang

/-- What a stretch of text is that holds no token. -/
inductive GapKind where
  | blanks | comment | stray | openText
deriving DecidableEq, Repr

/-- A stretch of text that holds no token, marked where it begins. -/
structure Gap extends Mark where
  kind : GapKind
  chars : List Char
deriving DecidableEq, Repr

namespace GapKind

/-- The kind of the lexeme that a gap is. -/
def lexemeKind : GapKind → LexemeKind
  | blanks => .blank
  | comment => .comment
  | stray => .stray
  | openText => .openText

/-- What may follow a gap: blanks and comments go as far as they can, and open quotes go on to the
end. -/
def EndsBefore : GapKind → List Char → Prop
  | blanks, following => ∀ c ∈ following.head?, Lexeme.isBlank c = false
  | comment, following => ∀ c ∈ following.head?, c = '\n'
  | stray, _ => True
  | openText, following => following = []

end GapKind

namespace Gap

/-- The gap is what its kind says, where its mark says. -/
structure Fits (text : List Char) (gap : Gap) : Prop where
  nonempty : gap.chars ≠ []
  standsAt : StandsAt text gap.toMark gap.chars
  rule : Lexeme.Rule gap.kind.lexemeKind gap.chars
  ends : gap.kind.EndsBefore (text.drop (gap.spot + gap.chars.length))

/-- The spot lies in the gap. -/
def Covers (gap : Gap) (spot : Nat) : Prop :=
  gap.spot ≤ spot ∧ spot < gap.spot + gap.chars.length

/-- What is reported of a gap. -/
def issue? (gap : Gap) : Option Issue :=
  match gap.kind with
  | .stray => some (Issue.atMark gap.toMark "Unexpected character.")
  | .openText => some (Issue.atMark gap.toMark "Unterminated string.")
  | .blanks | .comment => none

end Gap

/-- The spot lies in the token. -/
def Token.Covers (token : Token) (spot : Nat) : Prop :=
  token.spot ≤ spot ∧ spot < token.spot + token.lexeme.length

/-- The tokens of a text and the gaps between them account for all of its characters, and the
issues of its lexemes are those of the gaps. -/
structure AccountedBy (text : String) (gaps : List Gap) : Prop where
  /-- The lexeme of a token is what stands at its mark. -/
  tokensStand : ∀ token ∈ (TokenStream.ofText text).tokens,
    token.lexeme ≠ "" ∧ StandsAt text.toList token.toMark token.lexeme.toList
  /-- Every token begins after those before it, and behind their lexemes. -/
  tokensApart : (TokenStream.ofText text).tokens.Pairwise fun earlier later =>
    earlier.spot < later.spot ∧ earlier.spot + earlier.lexeme.length ≤ later.spot
  gapsFit : ∀ gap ∈ gaps, gap.Fits text.toList
  gapsApart : gaps.Pairwise fun earlier later => earlier.spot + earlier.chars.length ≤ later.spot
  /-- What lies in no token lies in a gap, and only that. -/
  split : ∀ spot < text.length,
    (∃ gap ∈ gaps, gap.Covers spot) ↔ ¬∃ token ∈ (TokenStream.ofText text).tokens, token.Covers spot
  /-- There are no issues but those of the gaps, and they come in the order of the gaps. -/
  issues : TokenStream.issuesOf text = gaps.filterMap Gap.issue?
  issuesApart : (TokenStream.issuesOf text).Pairwise fun earlier later =>
    ∃ spot ∈ earlier.spot, ∃ laterSpot ∈ later.spot, spot < laterSpot
  /-- Each gap is reported once at its spot, if it is one that is reported. -/
  reported : ∀ gap ∈ gaps, (TokenStream.issuesOf text).filter (·.spot = some gap.spot) =
    gap.issue?.toList
  openTexts : (gaps.filter (·.kind = .openText)).length ≤ 1

namespace PlacedLexeme

/-- The gap that a placed lexeme is, if it is one. -/
def gap? (placed : PlacedLexeme) : Option Gap :=
  match placed.kind with
  | .blank => some ⟨placed.mark, .blanks, placed.chars⟩
  | .comment => some ⟨placed.mark, .comment, placed.chars⟩
  | .stray => some ⟨placed.mark, .stray, placed.chars⟩
  | .openText => some ⟨placed.mark, .openText, placed.chars⟩
  | .punctuation | .number | .text | .word => none

variable {placed : PlacedLexeme}

theorem gap?_eq_some {gap : Gap} (isGap : placed.gap? = some gap) :
    placed.kind = gap.kind.lexemeKind ∧ gap.toMark = placed.mark ∧ gap.chars = placed.chars := by
  unfold gap? at isGap
  cases kindEq : placed.kind <;> rw [kindEq] at isGap <;> cases isGap <;> exact ⟨rfl, rfl, rfl⟩

theorem token?_eq_some {token : Token} (isToken : placed.token? = some token) :
    token.toMark = placed.mark ∧ token.lexeme.toList = placed.chars := by
  obtain ⟨kind, _, rfl⟩ := Option.map_eq_some_iff.1 isToken
  exact ⟨rfl, String.toList_ofList⟩

theorem issue?_eq_bind (placed : PlacedLexeme) : placed.issue? = placed.gap?.bind Gap.issue? := by
  unfold issue? gap?
  cases placed.kind <;> rfl

/-- All punctuation is known. -/
theorem isSome_ofPunctuation {chars : List Char} (rule : Lexeme.Rule .punctuation chars) :
    (TokenKind.ofPunctuation chars).isSome = true := by
  cases rule with
  | lone lone =>
      simp only [Lexeme.isLonePunctuation, Bool.or_eq_true, beq_iff_eq, or_assoc] at lone
      rcases lone with rfl | rfl | rfl | rfl | rfl | rfl | rfl | rfl | rfl | rfl | rfl <;> rfl
  | single takes =>
      rcases Lexeme.eq_of_mayTakeEqual takes with rfl | rfl | rfl | rfl <;> rfl
  | double takes =>
      rcases Lexeme.eq_of_mayTakeEqual takes with rfl | rfl | rfl | rfl <;> rfl

/-- A lexeme is a token or a gap, and not both. -/
theorem isSome_token?_iff {text : List Char} (found : placed.FoundIn text) :
    placed.token?.isSome = true ↔ placed.gap? = none := by
  have rule := found.rule
  unfold token? tokenKind? gap?
  cases kindEq : placed.kind with
  | punctuation =>
      rw [kindEq] at rule
      simp [isSome_ofPunctuation rule]
  | _ => simp

theorem fits_of_gap? {text : List Char} {gap : Gap} (found : placed.FoundIn text)
    (isGap : placed.gap? = some gap) : gap.Fits text := by
  obtain ⟨sameKind, sameMark, sameChars⟩ := gap?_eq_some isGap
  refine ⟨?_, ?_, ?_, ?_⟩
  · rw [sameChars]
    exact found.chars_ne_nil
  · rw [sameMark, sameChars]
    exact found.standsAt
  · rw [← sameKind, sameChars]
    exact found.rule
  · obtain ⟨before, c, more, after, rfl, isMark, begins, isFirst⟩ := found
    have following :
        (before ++ (c :: more ++ after)).drop (gap.spot + gap.chars.length) = after := by
      rw [sameMark, isMark, sameChars, begins]
      simp [Mark.start, Mark.advance]
    have whole : Lexeme.first c (more ++ after) = ⟨gap.kind.lexemeKind, c :: more⟩ := by
      rw [isFirst, ← sameKind, ← begins]
    rw [following]
    cases kindEq : gap.kind with
    | blanks => rw [kindEq] at whole; exact Lexeme.blanks_end whole
    | comment => rw [kindEq] at whole; exact Lexeme.comment_ends whole
    | stray => trivial
    | openText => rw [kindEq] at whole; exact Lexeme.openText_ends whole

theorem token_covers_iff {token : Token} {spot : Nat} (isToken : placed.token? = some token) :
    token.Covers spot ↔ placed.Covers spot := by
  obtain ⟨sameMark, sameChars⟩ := token?_eq_some isToken
  unfold Token.Covers Covers
  rw [← sameMark, ← sameChars, String.length_toList]

theorem gap_covers_iff {gap : Gap} {spot : Nat} (isGap : placed.gap? = some gap) :
    gap.Covers spot ↔ placed.Covers spot := by
  obtain ⟨_, sameMark, sameChars⟩ := gap?_eq_some isGap
  unfold Gap.Covers Covers
  rw [← sameMark, ← sameChars]

end PlacedLexeme

/-- The gaps between the tokens of a text. -/
def gapsOf (text : String) : List Gap :=
  (placedLexemes text.toList).filterMap PlacedLexeme.gap?

section Text

variable {text : String}

theorem gap_fits {gap : Gap} (member : gap ∈ gapsOf text) : gap.Fits text.toList := by
  obtain ⟨placed, inText, isGap⟩ := List.mem_filterMap.1 member
  exact PlacedLexeme.fits_of_gap? (PlacedLexeme.foundIn inText) isGap

theorem token_stands {token : Token} (member : token ∈ (TokenStream.ofText text).tokens) :
    token.lexeme ≠ "" ∧ StandsAt text.toList token.toMark token.lexeme.toList := by
  obtain ⟨placed, inText, isToken⟩ := List.mem_filterMap.1 member
  obtain ⟨sameMark, sameChars⟩ := PlacedLexeme.token?_eq_some isToken
  have found := PlacedLexeme.foundIn inText
  rw [sameMark, sameChars]
  refine ⟨?_, found.standsAt⟩
  intro empty
  rw [empty] at sameChars
  exact found.chars_ne_nil sameChars.symm

theorem gaps_apart (text : String) : (gapsOf text).Pairwise fun earlier later =>
    earlier.spot + earlier.chars.length ≤ later.spot := by
  apply List.Pairwise.filterMap _ ?_ (PlacedLexeme.pairwise_before text.toList)
  intro placed other before gap isGap otherGap isOther
  obtain ⟨_, sameMark, sameChars⟩ := PlacedLexeme.gap?_eq_some isGap
  obtain ⟨_, otherMark, _⟩ := PlacedLexeme.gap?_eq_some isOther
  rw [sameMark, sameChars, otherMark]
  exact before

theorem tokens_apart (text : String) :
    (TokenStream.ofText text).tokens.Pairwise fun earlier later =>
      earlier.spot + earlier.lexeme.length ≤ later.spot := by
  apply List.Pairwise.filterMap _ ?_ (PlacedLexeme.pairwise_before text.toList)
  intro placed other before token isToken otherToken isOther
  obtain ⟨sameMark, sameChars⟩ := PlacedLexeme.token?_eq_some isToken
  obtain ⟨otherMark, _⟩ := PlacedLexeme.token?_eq_some isOther
  rw [sameMark, otherMark, ← String.length_toList, sameChars]
  exact before

/-- What lies in no token lies in a gap, and only that. -/
theorem covered_by_gap_iff {spot : Nat} (inside : spot < text.length) :
    (∃ gap ∈ gapsOf text, gap.Covers spot) ↔
      ¬∃ token ∈ (TokenStream.ofText text).tokens, token.Covers spot := by
  constructor
  · rintro ⟨gap, gapMember, gapCovers⟩ ⟨token, tokenMember, tokenCovers⟩
    obtain ⟨placed, inText, isGap⟩ := List.mem_filterMap.1 gapMember
    obtain ⟨other, otherInText, isToken⟩ := List.mem_filterMap.1 tokenMember
    have same : other = placed := PlacedLexeme.eq_of_covers otherInText inText
      ((PlacedLexeme.token_covers_iff isToken).1 tokenCovers)
      ((PlacedLexeme.gap_covers_iff isGap).1 gapCovers)
    rw [same] at isToken
    have noGap := (PlacedLexeme.isSome_token?_iff (PlacedLexeme.foundIn inText)).1
      (Option.isSome_of_eq_some isToken)
    rw [isGap] at noGap
    cases noGap
  · intro noToken
    rw [← String.length_toList] at inside
    obtain ⟨placed, inText, covers⟩ := PlacedLexeme.exists_covers inside
    have found := PlacedLexeme.foundIn inText
    cases isGap : placed.gap? with
    | none =>
        obtain ⟨token, isToken⟩ :=
          Option.isSome_iff_exists.1 ((PlacedLexeme.isSome_token?_iff found).2 isGap)
        exact absurd ⟨token, List.mem_filterMap.2 ⟨placed, inText, isToken⟩,
          (PlacedLexeme.token_covers_iff isToken).2 covers⟩ noToken
    | some gap =>
        exact ⟨gap, List.mem_filterMap.2 ⟨placed, inText, isGap⟩,
          (PlacedLexeme.gap_covers_iff isGap).2 covers⟩

theorem issuesOf_eq (text : String) :
    TokenStream.issuesOf text = (gapsOf text).filterMap Gap.issue? := by
  unfold TokenStream.issuesOf gapsOf
  rw [List.filterMap_filterMap]
  exact congrArg (List.filterMap · _) (funext PlacedLexeme.issue?_eq_bind)

theorem spot_of_issue? {gap : Gap} {issue : Issue} (isIssue : gap.issue? = some issue) :
    issue.spot = some gap.spot := by
  unfold Gap.issue? at isIssue
  split at isIssue <;> cases isIssue <;> rfl

theorem gaps_ascend (text : String) :
    (gapsOf text).Pairwise fun earlier later => earlier.spot < later.spot := by
  apply List.Pairwise.filterMap _ ?_ (PlacedLexeme.pairwise_ascend text.toList)
  intro placed other before gap isGap otherGap isOther
  rw [(PlacedLexeme.gap?_eq_some isGap).2.1, (PlacedLexeme.gap?_eq_some isOther).2.1]
  exact before

theorem issues_ascend (text : String) :
    (TokenStream.issuesOf text).Pairwise fun earlier later =>
      ∃ spot ∈ earlier.spot, ∃ laterSpot ∈ later.spot, spot < laterSpot := by
  rw [issuesOf_eq]
  apply List.Pairwise.filterMap _ ?_ (gaps_ascend text)
  intro earlier later before issue isIssue laterIssue isLater
  exact ⟨_, spot_of_issue? isIssue, _, spot_of_issue? isLater, before⟩

/-- No other gap is reported at the spot of a gap. -/
theorem filter_issues_of_spot_ne {gaps : List Gap} {spot : Nat}
    (others : ∀ gap ∈ gaps, gap.spot ≠ spot) :
    (gaps.filterMap Gap.issue?).filter (·.spot = some spot) = [] := by
  refine List.filter_eq_nil_iff.2 ?_
  intro issue member atSpot
  obtain ⟨gap, gapMember, isIssue⟩ := List.mem_filterMap.1 member
  rw [decide_eq_true_iff, spot_of_issue? isIssue] at atSpot
  exact others gap gapMember (Option.some.inj atSpot)

theorem issues_of_gap {gap : Gap} (member : gap ∈ gapsOf text) :
    (TokenStream.issuesOf text).filter (·.spot = some gap.spot) = gap.issue?.toList := by
  rw [issuesOf_eq]
  have ascend := gaps_ascend text
  obtain ⟨before, after, split⟩ := List.append_of_mem member
  rw [split] at ascend ⊢
  obtain ⟨_, ascendAfter, beforeGap⟩ := List.pairwise_append.1 ascend
  have noneBefore : ∀ other ∈ before, other.spot ≠ gap.spot := fun other inBefore =>
    Nat.ne_of_lt (beforeGap other inBefore gap List.mem_cons_self)
  have noneAfter : ∀ other ∈ after, other.spot ≠ gap.spot := fun other inAfter =>
    Nat.ne_of_gt ((List.pairwise_cons.1 ascendAfter).1 other inAfter)
  rw [List.filterMap_append, List.filterMap_cons, List.filter_append,
    filter_issues_of_spot_ne noneBefore, List.nil_append]
  cases isIssue : gap.issue? with
  | none => exact filter_issues_of_spot_ne noneAfter
  | some issue =>
      dsimp only
      rw [List.filter_cons_of_pos (by simp [spot_of_issue? isIssue]),
        filter_issues_of_spot_ne noneAfter]
      rfl

/-- Nothing comes after open quotes. -/
theorem openTexts_length_le (text : String) :
    ((gapsOf text).filter (·.kind = .openText)).length ≤ 1 := by
  have apart := (gaps_apart text).filter (·.kind = .openText)
  cases found : (gapsOf text).filter (·.kind = .openText) with
  | nil => exact Nat.zero_le 1
  | cons first others =>
      cases others with
      | nil => exact Nat.le_refl 1
      | cons second rest =>
          rw [found] at apart
          have before := (List.pairwise_cons.1 apart).1 second List.mem_cons_self
          have firstMember : first ∈ (gapsOf text).filter (·.kind = .openText) := by simp [found]
          have secondMember : second ∈ (gapsOf text).filter (·.kind = .openText) := by simp [found]
          rw [List.mem_filter, decide_eq_true_iff] at firstMember secondMember
          have ends := (gap_fits firstMember.1).ends
          rw [firstMember.2] at ends
          have reachesEnd := List.drop_eq_nil_iff.1 ends
          have within := (gap_fits secondMember.1).standsAt.within
          have positive := List.length_pos_of_ne_nil (gap_fits secondMember.1).nonempty
          omega

/-- The end of a text is listed as no token is. -/
theorem Token.listed_ne_end (token : Token) : token.listed ≠ "EOF  None" := by
  intro same
  have sameChars := congrArg String.toList same
  unfold Token.listed at sameChars
  cases kindEq : token.kind <;> rw [kindEq] at sameChars <;>
    simp [TokenKind.label] at sameChars

end Text

/-- Every character of a text is accounted for.  A listing of the tokens ends with the end of the
text, which is at the last spot and is listed once; everything else is in a token or in a gap. -/
theorem every_character_accounted_for (text : String) :
    (TokenStream.ofText text).stop = ⟨1 + text.toList.count '\n', text.length⟩ ∧
      (TokenStream.ofText text).listed.getLast? = some "EOF  None" ∧
      (TokenStream.ofText text).listed.count "EOF  None" = 1 ∧
      ∃ gaps, AccountedBy text gaps := by
  have listedOnce : "EOF  None" ∉ (TokenStream.ofText text).tokens.map Token.listed := by
    intro member
    obtain ⟨token, _, same⟩ := List.mem_map.1 member
    exact token.listed_ne_end same
  refine ⟨?_, ?_, ?_, gapsOf text, ?_⟩
  · simp [TokenStream.ofText, Mark.start, Mark.advance, String.length_toList]
  · exact List.getLast?_concat
  · rw [TokenStream.listed, List.count_append, List.count_eq_zero.2 listedOnce]
    rfl
  · exact {
      tokensStand := fun _ => token_stands
      tokensApart := (TokenStream.pairwise_tokens text).and (tokens_apart text)
      gapsFit := fun _ => gap_fits
      gapsApart := gaps_apart text
      split := fun _ => covered_by_gap_iff
      issues := issuesOf_eq text
      issuesApart := issues_ascend text
      reported := fun _ => issues_of_gap
      openTexts := openTexts_length_le text }

/-- Blanks around a character that begins no lexeme, a comment, a line feed and open quotes. -/
example : (gapsOf "a ?//b\n\"c").map Gap.kind =
    [.blanks, .stray, .comment, .blanks, .openText] := by decide +kernel

end LoxLang
