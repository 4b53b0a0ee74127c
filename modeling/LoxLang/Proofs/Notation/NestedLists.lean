import LoxLang.Proofs.Lexicon.Taking
import LoxLang.Tree.Notation

/-!
# Nested lists

An item is a word, or a list of items.  A list is written with parentheses around it and spaces
between its items.  If no word is empty or holds a space or a parenthesis, then the text of an
item tells the item: where a word ends is told by the next space or parenthesis, and where a list
ends by its closing parenthesis.
-/

namespace LoxLang

/-- A word, or a list of items. -/
inductive NestedList where
  | word (text : String)
  | list (items : List NestedList)

namespace NestedList

mutual

/-- The text of an item. -/
def text : NestedList → String
  | word text => text
  | list items => Notation.paren (texts items)

/-- The texts of several items. -/
def texts : List NestedList → List String
  | [] => []
  | first :: rest => text first :: texts rest

end

theorem texts_eq_map (items : List NestedList) : texts items = items.map text := by
  induction items with
  | nil => rfl
  | cons first rest induction => rw [texts, induction, List.map_cons]

/-- The characters at which a word ends. -/
def isDelimiter (c : Char) : Bool := c == ' ' || c == '(' || c == ')'

/-- A word that can be told from what stands around it. -/
structure IsSolid (word : String) : Prop where
  nonempty : word.toList ≠ []
  undivided : ∀ c ∈ word.toList, isDelimiter c = false

theorem isSolid_iff {word : String} :
    IsSolid word ↔ word.toList ≠ [] ∧ ∀ c ∈ word.toList, isDelimiter c = false :=
  ⟨fun solid => ⟨solid.nonempty, solid.undivided⟩, fun ⟨nonempty, undivided⟩ =>
    ⟨nonempty, undivided⟩⟩

/-- A word is solid if all its characters are of a class without delimiters. -/
theorem IsSolid.of_class {word : String} (test : Char → Bool) (nonempty : word.toList ≠ [])
    (passes : ∀ c ∈ word.toList, test c = true)
    (disjoint : test ' ' = false ∧ test '(' = false ∧ test ')' = false) : IsSolid word := by
  refine ⟨nonempty, fun c member =>
    Lexeme.not_of_disjoint (fun d delimiter => ?_) (passes c member)⟩
  simp only [isDelimiter, Bool.or_eq_true, beq_iff_eq, or_assoc] at delimiter
  rcases delimiter with rfl | rfl | rfl
  · exact disjoint.1
  · exact disjoint.2.1
  · exact disjoint.2.2

/-- All words in an item can be told from what stands around them. -/
inductive Solid : NestedList → Prop where
  | word {text : String} (solid : IsSolid text) : Solid (.word text)
  | list {items : List NestedList} (each : ∀ item ∈ items, Solid item) : Solid (.list items)

/-- The characters of several items, each after a space. -/
def spaced (items : List NestedList) : List Char :=
  items.flatMap fun item => ' ' :: item.text.toList

theorem toList_intercalate (words : List String) :
    (String.intercalate " " words).toList =
      (words.flatMap fun word => ' ' :: word.toList).tail := by
  induction words with
  | nil => simp [String.intercalate_nil]
  | cons first rest induction =>
      cases rest with
      | nil => simp [String.intercalate_singleton]
      | cons second rest =>
          rw [String.intercalate_cons_cons, String.toList_append, String.toList_append, induction]
          simp

theorem toList_list (items : List NestedList) :
    (list items).text.toList = '(' :: ((spaced items).tail ++ [')']) := by
  rw [text, Notation.paren, String.toList_append, String.toList_append, toList_intercalate,
    texts_eq_map, List.flatMap_map]
  rfl

/-- What comes next does not go on with a word. -/
abbrev Ends (rest : List Char) : Prop := Lexeme.Stops (fun c => !isDelimiter c) rest

theorem ends_cons {c : Char} (delimiter : isDelimiter c = true) (rest : List Char) :
    Ends (c :: rest) := by
  rintro d ⟨⟩
  simp [delimiter]

/-- An item begins with neither a space nor a closing parenthesis. -/
theorem Solid.begins {item : NestedList} (solid : Solid item) :
    ∃ c more, item.text.toList = c :: more ∧ c ≠ ' ' ∧ c ≠ ')' := by
  cases solid with
  | @word text solid =>
      obtain ⟨c, more, begins⟩ := List.exists_cons_of_ne_nil solid.nonempty
      have notDelimiter := solid.undivided c (begins ▸ List.mem_cons_self)
      refine ⟨c, more, begins, ?_, ?_⟩ <;> rintro rfl <;> cases notDelimiter
  | list => exact ⟨'(', _, toList_list _, by decide, by decide⟩

/-- An item can be taken off a text in one way only. -/
def ReadOneWay (item : NestedList) : Prop :=
  ∀ {other : NestedList} {rest otherRest : List Char}, Solid other → Ends rest → Ends otherRest →
    item.text.toList ++ rest = other.text.toList ++ otherRest → item = other ∧ rest = otherRest

theorem ends_spaced (items : List NestedList) (rest : List Char) :
    Ends (spaced items ++ ')' :: rest) := by
  cases items with
  | nil => exact ends_cons rfl rest
  | cons => exact ends_cons rfl _

/-- So can items up to the end of a list. -/
theorem spaced_readOneWay {items others : List NestedList} {rest otherRest : List Char}
    (each : ∀ item ∈ items, ReadOneWay item) (otherSolid : ∀ other ∈ others, Solid other)
    (same : spaced items ++ ')' :: rest = spaced others ++ ')' :: otherRest) :
    items = others ∧ rest = otherRest := by
  induction items generalizing others with
  | nil =>
      cases others with
      | nil => exact ⟨rfl, List.tail_eq_of_cons_eq same⟩
      | cons other others => cases (List.cons.inj same).1
  | cons item items induction =>
      cases others with
      | nil => cases (List.cons.inj same).1
      | cons other others =>
          obtain ⟨firstOneWay, restOneWay⟩ := List.forall_mem_cons.1 each
          obtain ⟨firstSolid, restSolid⟩ := List.forall_mem_cons.1 otherSolid
          have afterSpace : item.text.toList ++ (spaced items ++ ')' :: rest) =
              other.text.toList ++ (spaced others ++ ')' :: otherRest) := by
            simpa [spaced] using same
          obtain ⟨rfl, later⟩ := firstOneWay firstSolid (ends_spaced items rest)
            (ends_spaced others otherRest) afterSpace
          obtain ⟨rfl, sameRest⟩ := induction restOneWay restSolid later
          exact ⟨rfl, sameRest⟩

/-- The items of a list are told by what stands between its parentheses. -/
theorem list_readOneWay {items others : List NestedList} {rest otherRest : List Char}
    (solid : ∀ item ∈ items, Solid item) (each : ∀ item ∈ items, ReadOneWay item)
    (otherSolid : ∀ other ∈ others, Solid other)
    (same : (list items).text.toList ++ rest = (list others).text.toList ++ otherRest) :
    items = others ∧ rest = otherRest := by
  simp only [toList_list, List.cons_append, List.append_assoc, List.nil_append,
    List.cons.injEq, true_and] at same
  cases items with
  | nil =>
      cases others with
      | nil => exact ⟨rfl, List.tail_eq_of_cons_eq same⟩
      | cons other others =>
          obtain ⟨c, more, begins, -, notClosing⟩ := (otherSolid other List.mem_cons_self).begins
          simp only [spaced, List.flatMap_cons, begins] at same
          exact absurd (List.cons.inj same).1.symm notClosing
  | cons item items =>
      cases others with
      | nil =>
          obtain ⟨c, more, begins, -, notClosing⟩ := (solid item List.mem_cons_self).begins
          simp only [spaced, List.flatMap_cons, begins] at same
          exact absurd (List.cons.inj same).1 notClosing
      | cons other others =>
          exact spaced_readOneWay each otherSolid (congrArg (' ' :: ·) same)

theorem IsSolid.ne_list {word : String} (solid : IsSolid word) {items : List NestedList}
    {rest otherRest : List Char} :
    word.toList ++ rest ≠ (list items).text.toList ++ otherRest := by
  obtain ⟨c, more, begins⟩ := List.exists_cons_of_ne_nil solid.nonempty
  have notDelimiter := solid.undivided c (begins ▸ List.mem_cons_self)
  rw [begins, toList_list]
  intro same
  rw [(List.cons.inj same).1] at notDelimiter
  cases notDelimiter

/-- An item of solid words can be taken off a text in one way only. -/
theorem Solid.readOneWay {item : NestedList} (solid : Solid item) : ReadOneWay item := by
  induction solid with
  | @word text solid =>
      intro other rest otherRest otherSolid ends otherEnds same
      cases otherSolid with
      | @word otherText otherSolid =>
          -- Each word is all that stands in front of the next delimiter.
          have passes {word : String} (solid : IsSolid word) :
              ∀ c ∈ word.toList, (!isDelimiter c) = true := by simpa using solid.undivided
          have taken := Lexeme.takeWhile_of_stops (passes solid) ends
          have otherTaken := Lexeme.takeWhile_of_stops (passes otherSolid) otherEnds
          have sameText : text.toList = otherText.toList := by
            rw [← taken, ← otherTaken]
            exact congrArg _ same
          have plain : text.toList ++ rest = otherText.toList ++ otherRest := same
          rw [sameText] at plain
          exact ⟨by rw [String.toList_inj.1 sameText], List.append_cancel_left plain⟩
      | list => exact absurd same solid.ne_list
  | @list items solid each =>
      intro other rest otherRest otherSolid ends otherEnds same
      cases otherSolid with
      | word otherSolid => exact absurd same.symm otherSolid.ne_list
      | list otherEach =>
          obtain ⟨rfl, sameRest⟩ := list_readOneWay solid each otherEach same
          exact ⟨rfl, sameRest⟩

/-- The text of an item of solid words tells the item. -/
theorem eq_of_text {item other : NestedList} (solid : Solid item) (otherSolid : Solid other)
    (same : item.text = other.text) : item = other := by
  have nothing : Ends [] := by simp [Lexeme.Stops]
  refine (solid.readOneWay otherSolid nothing nothing ?_).1
  rw [same]

end NestedList

end LoxLang
