import LoxLang.Proofs.Lexicon.Rules
import LoxLang.Token.Stream
import Mathlib.Data.List.Pairwise

/-!
# Where lexemes stand

The lexemes of a text are placed one after the other: they do not overlap, and every
character of the text is in one of them.  Each stands where its mark says, and there it is
the first lexeme of what is left of the text.
-/

namespace LoxLang

/-- The characters stand in the text at the mark. -/
structure StandsAt (text : List Char) (mark : Mark) (chars : List Char) : Prop where
  within : mark.spot + chars.length ≤ text.length
  same : (text.drop mark.spot).take chars.length = chars
  line : mark.line = 1 + (text.take mark.spot).count '\n'

theorem standsAt_append (before chars after : List Char) :
    StandsAt (before ++ (chars ++ after)) (Mark.start.advance before) chars where
  within := by simp [Mark.start, Mark.advance]
  same := by simp [Mark.start, Mark.advance]
  line := by simp [Mark.start, Mark.advance]

namespace PlacedLexeme

/-- The spot lies in the lexeme. -/
def Covers (placed : PlacedLexeme) (spot : Nat) : Prop :=
  placed.mark.spot ≤ spot ∧ spot < placed.mark.spot + placed.chars.length

/-- The first lexeme ends before the second one begins. -/
def Before (placed later : PlacedLexeme) : Prop :=
  placed.mark.spot + placed.chars.length ≤ later.mark.spot

/-- The lexeme is the first one of what is left of the text at its mark. -/
def FoundIn (text : List Char) (placed : PlacedLexeme) : Prop :=
  ∃ before c more after, text = before ++ (c :: more ++ after) ∧
    placed.mark = Mark.start.advance before ∧ placed.chars = c :: more ∧
    Lexeme.first c (more ++ after) = placed.toLexeme

theorem foundIn_of_sequence {lexemes : List Lexeme} (sequence : Lexeme.Sequence lexemes)
    (before : List Char) :
    ∀ placed ∈ place (Mark.start.advance before) lexemes,
      placed.FoundIn (before ++ lexemes.flatMap Lexeme.chars) := by
  induction sequence generalizing before with
  | nil => simp [place]
  | @cons c more kind rest found _ induction =>
      have later := induction (before ++ c :: more)
      rw [List.append_assoc] at later
      have advances : (Mark.start.advance before).advance (c :: more) =
          Mark.start.advance (before ++ c :: more) := by
        simp [Mark.advance, Nat.add_assoc]
      rw [place, advances]
      refine List.forall_mem_cons.2 ⟨?_, later⟩
      exact ⟨before, c, more, _, rfl, rfl, rfl, found⟩

theorem foundIn {text : List Char} {placed : PlacedLexeme} (member : placed ∈ placedLexemes text) :
    placed.FoundIn text := by
  have found := foundIn_of_sequence (Lexeme.sequence_all text) []
  rw [Lexeme.flatMap_chars_all] at found
  exact found placed member

theorem FoundIn.standsAt {text : List Char} {placed : PlacedLexeme} (found : placed.FoundIn text) :
    StandsAt text placed.mark placed.chars := by
  obtain ⟨before, c, more, after, rfl, isMark, begins, _⟩ := found
  rw [isMark, begins]
  exact standsAt_append before (c :: more) after

theorem FoundIn.rule {text : List Char} {placed : PlacedLexeme} (found : placed.FoundIn text) :
    Lexeme.Rule placed.kind placed.chars := by
  obtain ⟨_, _, _, _, _, _, _, isFirst⟩ := found
  rw [← isFirst]
  exact Lexeme.rule_first _ _

theorem FoundIn.chars_ne_nil {text : List Char} {placed : PlacedLexeme}
    (found : placed.FoundIn text) : placed.chars ≠ [] := found.rule.chars_ne_nil

theorem pairwise_before_place (mark : Mark) (lexemes : List Lexeme) :
    (∀ placed ∈ place mark lexemes, mark.spot ≤ placed.mark.spot) ∧
      (place mark lexemes).Pairwise Before := by
  induction lexemes generalizing mark with
  | nil => simp [place]
  | cons first rest induction =>
      obtain ⟨restLater, restPairwise⟩ := induction (mark.advance first.chars)
      refine ⟨List.forall_mem_cons.2 ⟨Nat.le_refl _, ?_⟩, List.pairwise_cons.2 ⟨?_, restPairwise⟩⟩
      · intro placed member
        exact Nat.le_trans (Nat.le_add_right _ _) (restLater placed member)
      · exact restLater

/-- Every spot from the mark on is in one of the lexemes placed there. -/
theorem exists_covers_place {mark : Mark} {lexemes : List Lexeme} {spot : Nat}
    (begins : mark.spot ≤ spot)
    (ends : spot < mark.spot + (lexemes.flatMap Lexeme.chars).length) :
    ∃ placed ∈ place mark lexemes, placed.Covers spot := by
  induction lexemes generalizing mark with
  | nil =>
      rw [List.flatMap_nil, List.length_nil] at ends
      omega
  | cons first rest induction =>
      rw [List.flatMap_cons, List.length_append] at ends
      by_cases inFirst : spot < mark.spot + first.chars.length
      · exact ⟨⟨first, mark⟩, List.mem_cons_self, begins, inFirst⟩
      · have later : (mark.advance first.chars).spot = mark.spot + first.chars.length := rfl
        obtain ⟨placed, member, covers⟩ :=
          @induction (mark.advance first.chars) (by omega) (by omega)
        exact ⟨placed, List.mem_cons_of_mem _ member, covers⟩

section Text

variable {text : List Char}

theorem pairwise_before (text : List Char) : (placedLexemes text).Pairwise Before :=
  (pairwise_before_place Mark.start (Lexeme.all text)).2

/-- No lexeme is empty, so each begins further on than those before it. -/
theorem pairwise_ascend (text : List Char) : (placedLexemes text).Pairwise fun earlier later =>
    earlier.mark.spot < later.mark.spot := by
  refine (pairwise_before text).imp_of_mem ?_
  intro earlier later earlierMember _ before
  have positive := List.length_pos_of_ne_nil (foundIn earlierMember).chars_ne_nil
  unfold Before at before
  omega

theorem exists_covers {spot : Nat} (inside : spot < text.length) :
    ∃ placed ∈ placedLexemes text, placed.Covers spot := by
  apply exists_covers_place (Nat.zero_le spot)
  rw [Lexeme.flatMap_chars_all]
  exact Nat.lt_of_lt_of_le inside (Nat.le_add_left _ _)

/-- No spot lies in two lexemes. -/
theorem eq_of_covers {placed other : PlacedLexeme} {spot : Nat}
    (member : placed ∈ placedLexemes text) (otherMember : other ∈ placedLexemes text)
    (covers : placed.Covers spot) (otherCovers : other.Covers spot) : placed = other := by
  let apart (first second : PlacedLexeme) : Prop := first.Before second ∨ second.Before first
  have symmetric : Std.Symm apart := ⟨fun _ _ => Or.symm⟩
  have allApart : (placedLexemes text).Pairwise apart := (pairwise_before text).imp .inl
  by_contra different
  rcases allApart.forall member otherMember different with before | before
  · exact absurd (Nat.lt_of_lt_of_le covers.2 before) (Nat.not_lt.2 otherCovers.1)
  · exact absurd (Nat.lt_of_lt_of_le otherCovers.2 before) (Nat.not_lt.2 covers.1)

end Text

end PlacedLexeme

/-- Each token of a text begins after those before it. -/
theorem TokenStream.pairwise_tokens (text : String) :
    (TokenStream.ofText text).tokens.Pairwise fun earlier later => earlier.spot < later.spot := by
  apply List.Pairwise.filterMap _ ?_ (PlacedLexeme.pairwise_ascend text.toList)
  intro placed other before token isToken otherToken isOther
  obtain ⟨_, _, rfl⟩ := Option.map_eq_some_iff.1 isToken
  obtain ⟨_, _, rfl⟩ := Option.map_eq_some_iff.1 isOther
  exact before

end LoxLang
