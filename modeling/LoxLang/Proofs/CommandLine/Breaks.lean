import LoxLang.CommandLine
import LoxLang.Proofs.Text.Rows
import Mathlib

/-!
# Line breaks that the command reads

In what the command reads, from a file or line by line, there is no carriage return.
-/

namespace LoxLang.CommandLine

open String.Pos.Raw (extract)

/-- A piece that begins further on holds only characters of the rest. -/
theorem go₂_subset (chars : List Char) (place stop : String.Pos.Raw) :
    extract.go₂ chars place stop ⊆ chars := by
  induction chars generalizing place with
  | nil => exact List.Subset.refl _
  | cons c rest induction =>
      rw [extract.go₂]
      split
      · exact List.nil_subset _
      · exact List.cons_subset_cons c (induction _)

theorem go₁_subset (chars : List Char) (place start stop : String.Pos.Raw) :
    extract.go₁ chars place start stop ⊆ chars := by
  induction chars generalizing place with
  | nil => exact List.Subset.refl _
  | cons c rest induction =>
      rw [extract.go₁]
      split
      · exact go₂_subset _ _ _
      · exact List.subset_cons_of_subset c (induction _)

/-- A piece of a text holds only characters of the text. -/
theorem extract_subset (text : String) (start stop : String.Pos.Raw) :
    (extract text start stop).toList ⊆ text.toList := by
  unfold extract
  dsimp only
  split
  · exact List.nil_subset _
  · rw [String.toList_ofList]
    exact go₁_subset _ _ _ _

theorem splitOnAux_subset (text separator : String) (start place matched : String.Pos.Raw)
    (pieces : List String) (known : ∀ piece ∈ pieces, piece.toList ⊆ text.toList) :
    ∀ piece ∈ text.splitOnAux separator start place matched pieces,
      piece.toList ⊆ text.toList := by
  fun_induction String.splitOnAux text separator start place matched pieces with
  | case1 =>
      intro piece member
      rw [List.mem_reverse] at member
      rcases List.mem_cons.1 member with rfl | among
      · exact extract_subset _ _ _
      · exact known piece among
  | case2 _ _ _ _ _ _ _ _ _ induction =>
      exact induction (List.forall_mem_cons.2 ⟨extract_subset _ _ _, known⟩)
  | case3 _ _ _ _ _ _ _ _ _ induction => exact induction known
  | case4 _ _ _ _ _ _ induction => exact induction known

/-- The pieces between separators hold only characters of the text. -/
theorem splitOn_subset {text separator piece : String} (isPiece : piece ∈ text.splitOn separator) :
    piece.toList ⊆ text.toList := by
  unfold String.splitOn at isPiece
  split at isPiece
  · rw [List.mem_singleton.1 isPiece]
    exact List.Subset.refl _
  · exact splitOnAux_subset text separator 0 0 0 [] (by simp) piece isPiece

theorem return_not_mem_normalizeBreaks (text : List Char) : '\r' ∉ normalizeBreaks text := by
  fun_induction normalizeBreaks text with
  | case1 => exact List.not_mem_nil
  | case2 rest induction | case3 rest _ induction => simp [induction]
  | case4 c rest _ notReturn induction =>
      have other : '\r' ≠ c := fun same => notReturn same.symm
      simp [other, induction]

/-- What is read from a file. -/
theorem paired_of_decode? {contents : ByteArray} {text : String}
    (isRead : decode? contents = some text) : Text.ReturnsPaired text.toList := by
  obtain ⟨decoded, _, rfl⟩ := Option.map_eq_some_iff.1 isRead
  rw [String.toList_ofList]
  exact .of_not_mem (return_not_mem_normalizeBreaks _)

/-- What is read at the prompt. -/
theorem paired_of_inputLines {input line : String} (isLine : line ∈ inputLines input) :
    Text.ReturnsPaired line.toList := by
  have isPiece : line ∈ (String.ofList (normalizeBreaks input.toList)).splitOn "\n" := by
    unfold inputLines at isLine
    dsimp only at isLine
    split at isLine
    · exact (List.dropLast_sublist _).subset isLine
    · exact isLine
  refine .of_not_mem fun isReturn => return_not_mem_normalizeBreaks input.toList ?_
  have found := splitOn_subset isPiece isReturn
  rwa [String.toList_ofList] at found

end LoxLang.CommandLine
