import LoxLang.Proofs.Parser.Reading
import LoxLang.Proofs.Written

/-!
# Items read from pieces

What holds of every item and its piece of the tokens holds of all items and all
the tokens.
-/

namespace LoxLang

namespace Parser

variable {α : Type} {relation : List Token → α → Prop} {taken : List Token} {items : List α}

namespace Sequence

theorem forall_mem {property : α → Prop} (sequence : Sequence relation taken items)
    (each : ∀ piece item, relation piece item → property item) :
    ∀ item ∈ items, property item := by
  induction sequence with
  | nil => simp
  | cons related _ induction => simpa using ⟨each _ _ related, induction⟩

/-- Items that are written out as their pieces say, as long as only plain tokens are taken. -/
theorem written {plain : Token → Prop} {spell : α → List Spelling}
    (sequence : Sequence relation taken items) (allPlain : ∀ token ∈ taken, plain token)
    (each : ∀ piece item, relation piece item → (∀ token ∈ piece, plain token) →
      spell item = piece.map Token.spelling) :
    items.flatMap spell = taken.map Token.spelling := by
  induction sequence with
  | nil => simp
  | cons related _ induction =>
      rw [List.forall_mem_append] at allPlain
      simp [each _ _ related allPlain.1, induction allPlain.2]

theorem count_le {tokens : α → List Token} (sequence : Sequence relation taken items)
    (each : ∀ piece item, relation piece item →
      ∀ token, (tokens item).count token ≤ piece.count token) (token : Token) :
    (items.flatMap tokens).count token ≤ taken.count token := by
  induction sequence with
  | nil => simp
  | cons related _ induction =>
      have first := each _ _ related token
      simp only [List.flatMap_cons, List.count_append]
      omega

/-- Pieces that are not empty are no more than the tokens. -/
theorem length_le (sequence : Sequence relation taken items)
    (each : ∀ piece item, relation piece item → piece ≠ []) : items.length ≤ taken.length := by
  induction sequence with
  | nil => simp
  | cons related _ induction =>
      have first := List.length_pos_iff.2 (each _ _ related)
      simp only [List.length_cons, List.length_append]
      omega

end Sequence

namespace Separated

theorem forall_mem {property : α → Prop} (separated : Separated relation taken items)
    (each : ∀ piece item, relation piece item → property item) :
    ∀ item ∈ items, property item := by
  cases items with
  | nil => simp
  | cons first others =>
      obtain ⟨piece, more, rfl, related, sequence⟩ := separated
      have rest : ∀ item ∈ others, property item :=
        sequence.forall_mem fun _ item ⟨_, inner, _, _, related⟩ => each inner item related
      simpa using ⟨each _ _ related, rest⟩

theorem written {spell : α → List Spelling} (separated : Separated relation taken items)
    (each : ∀ piece item, relation piece item → spell item = piece.map Token.spelling) :
    Spelling.separated (items.map spell) = taken.map Token.spelling := by
  cases items with
  | nil =>
      cases separated
      rfl
  | cons first others =>
      obtain ⟨piece, more, rfl, related, sequence⟩ := separated
      have rest : (others.flatMap fun item => .mark .comma :: spell item) =
          more.map Token.spelling := by
        have plain : ∀ token ∈ more, (fun _ : Token => True) token := by simp
        refine sequence.written plain ?_
        rintro _ item ⟨comma, inner, rfl, isComma, related⟩ _
        simp [each inner item related, Token.spelling_of_kind isComma rfl]
      rw [List.map_cons, Spelling.separated_cons, List.flatMap_map, rest, each _ _ related,
        List.map_append]

theorem count_le {tokens : α → List Token} (separated : Separated relation taken items)
    (each : ∀ piece item, relation piece item →
      ∀ token, (tokens item).count token ≤ piece.count token) (token : Token) :
    (items.flatMap tokens).count token ≤ taken.count token := by
  cases items with
  | nil => simp
  | cons first others =>
      obtain ⟨piece, more, rfl, related, sequence⟩ := separated
      have rest : (others.flatMap tokens).count token ≤ more.count token := by
        refine sequence.count_le ?_ token
        rintro _ item ⟨comma, inner, rfl, _, related⟩ token
        exact Nat.le_trans (each inner item related token) List.count_le_count_cons
      have head := each _ _ related token
      simp only [List.flatMap_cons, List.count_append]
      omega

end Separated

end Parser

end LoxLang
