import LoxLang.Proofs.Notation.Statements
import LoxLang.Proofs.Parser.Exactness

/-!
# The notation shows the tree

Two lists of trees that the parser makes of texts without complaint have the same notations just
if they are the same, apart from the marks of their tokens.  Texts among their literals are left
out, since their notation has no quotes, and so are numbers that are not finite.  A number shows as
its value, however it was spelled.
-/

namespace LoxLang

/-- The trees that the parser makes of a text without complaint are read back. -/
theorem readsBack_of_parse {text : String} {depth : Nat} {trees : List (Stmt Unit)}
    (read : parseWithin depth (TokenStream.ofText text).tokens = ⟨some trees, []⟩)
    (plain : ∀ literal ∈ Stmt.literalsOfAll trees, literal.Plain) :
    ∀ tree ∈ trees, tree.isWhole = true ∧ tree.ReadsBack := by
  intro tree member
  have listRead := parseWithin_listReadFrom (congrArg Parse.statements read)
    (congrArg Parse.complaints read)
  have grammatical := listRead.grammatical tree member
  rw [Stmt.literalsOfAll_eq_flatMap, List.forall_mem_flatMap] at plain
  refine ⟨grammatical.isWhole, grammatical.readsBack (fun token inTree => ?_) (plain tree member)⟩
  have inAll : token ∈ Stmt.tokensOfAll trees := by
    rw [Stmt.tokensOfAll_eq_flatMap]
    exact List.mem_flatMap_of_mem member inTree
  exact TokenStream.spelled (listRead.tokens_subset inAll)

/-- Trees that are read back have the same notation just if they differ in marks at most. -/
theorem Stmt.ReadsBack.notation_eq_iff {s other : Stmt Unit} (whole : s.isWhole = true)
    (back : s.ReadsBack) (otherWhole : other.isWhole = true) (otherBack : other.ReadsBack) :
    Notation.stmt s = Notation.stmt other ↔ s.unmarked = other.unmarked := by
  rw [Stmt.notation_eq s whole, Stmt.notation_eq other otherWhole, Option.some_inj]
  constructor
  · intro sameText
    -- The text tells the list, and the list is read in one way.
    have sameList := NestedList.eq_of_text back.solid otherBack.solid sameText
    have sameReading := back.read
    rw [sameList, otherBack.read] at sameReading
    exact (Option.some.inj sameReading).symm
  · intro same
    rw [← s.nested_unmarked, ← other.nested_unmarked, same]

theorem map_eq_map_iff_of_mem {α β γ : Type} {f : α → β} {g : α → γ} {parts others : List α}
    (alike : ∀ part ∈ parts, ∀ other ∈ others, f part = f other ↔ g part = g other) :
    parts.map f = others.map f ↔ parts.map g = others.map g := by
  induction parts generalizing others with
  | nil => simp [eq_comm]
  | cons first rest induction =>
      cases others with
      | nil => simp
      | cons other others =>
          have firstAlike := alike first List.mem_cons_self other List.mem_cons_self
          have restAlike := @induction others fun part inRest next inOthers =>
            alike part (List.mem_cons_of_mem _ inRest) next (List.mem_cons_of_mem _ inOthers)
          rw [List.map_cons, List.map_cons, List.map_cons, List.map_cons, List.cons.injEq,
            List.cons.injEq, firstAlike, restAlike]

/-- The notation of trees shows the trees: if two texts are read without complaint, and their trees
hold neither texts nor numbers that are too large, then the notations of the trees are the same
just if the trees are, apart from marks. -/
theorem notation_is_faithful {text otherText : String} {depth otherDepth : Nat}
    {trees others : List (Stmt Unit)}
    (read : parseWithin depth (TokenStream.ofText text).tokens = ⟨some trees, []⟩)
    (otherRead : parseWithin otherDepth (TokenStream.ofText otherText).tokens = ⟨some others, []⟩)
    (plain : ∀ literal ∈ Stmt.literalsOfAll trees, literal.Plain)
    (otherPlain : ∀ literal ∈ Stmt.literalsOfAll others, literal.Plain) :
    trees.map Notation.stmt = others.map Notation.stmt ↔
      trees.map Stmt.unmarked = others.map Stmt.unmarked := by
  refine map_eq_map_iff_of_mem fun tree member other otherMember => ?_
  obtain ⟨whole, back⟩ := readsBack_of_parse read plain tree member
  obtain ⟨otherWhole, otherBack⟩ := readsBack_of_parse otherRead otherPlain other otherMember
  exact back.notation_eq_iff whole otherWhole otherBack

/-- The tree of `a.b = value - c;` for a number, with its tokens at these spots. -/
def settingAt (value : Float) (object name minus operand : Nat) : Stmt Unit :=
  .expression (.set (.variable ⟨⟨1, object⟩, .identifier, "a"⟩ ()) ⟨⟨1, name⟩, .identifier, "b"⟩
    (.binary (.literal (.number value)) ⟨⟨1, minus⟩, .minus, "-"⟩
      (.variable ⟨⟨1, operand⟩, .identifier, "c"⟩ ())))

theorem notation_is_faithful_spaces :
    parseWithin 20 (TokenStream.ofText "a.b=1.50-c;").tokens = ⟨some [settingAt 1.5 0 2 8 9], []⟩ ∧
      parseWithin 20 (TokenStream.ofText " a . b = 1.5 - c ;").tokens =
        ⟨some [settingAt 1.5 1 5 13 15], []⟩ ∧
      Notation.stmt (settingAt 1.5 0 2 8 9) = some "(; (= a b (- 1.5 c)))" ∧
      Notation.stmt (settingAt 1.5 1 5 13 15) = some "(; (= a b (- 1.5 c)))" ∧
      (settingAt 1.5 0 2 8 9).unmarked = (settingAt 1.5 1 5 13 15).unmarked := by
  have tokens : (TokenStream.ofText "a.b=1.50-c;").tokens =
      [⟨⟨1, 0⟩, .identifier, "a"⟩, ⟨⟨1, 1⟩, .dot, "."⟩, ⟨⟨1, 2⟩, .identifier, "b"⟩,
       ⟨⟨1, 3⟩, .equal, "="⟩, ⟨⟨1, 4⟩, .number, "1.50"⟩, ⟨⟨1, 8⟩, .minus, "-"⟩,
       ⟨⟨1, 9⟩, .identifier, "c"⟩, ⟨⟨1, 10⟩, .semicolon, ";"⟩] := by decide +kernel
  have otherTokens : (TokenStream.ofText " a . b = 1.5 - c ;").tokens =
      [⟨⟨1, 1⟩, .identifier, "a"⟩, ⟨⟨1, 3⟩, .dot, "."⟩, ⟨⟨1, 5⟩, .identifier, "b"⟩,
       ⟨⟨1, 7⟩, .equal, "="⟩, ⟨⟨1, 9⟩, .number, "1.5"⟩, ⟨⟨1, 13⟩, .minus, "-"⟩,
       ⟨⟨1, 15⟩, .identifier, "c"⟩, ⟨⟨1, 17⟩, .semicolon, ";"⟩] := by decide +kernel
  have number : (Decimal.ofNumeral "1.50".toList).toFloat = 1.5 := by decide +kernel
  have otherNumber : (Decimal.ofNumeral "1.5".toList).toFloat = 1.5 := by decide +kernel
  have finite : (1.5 : Float).isFinite = true := by decide +kernel
  have read : parseWithin 20 (TokenStream.ofText "a.b=1.50-c;").tokens =
      ⟨some [settingAt 1.5 0 2 8 9], []⟩ := by
    rw [tokens, ← number]
    rfl
  have otherRead : parseWithin 20 (TokenStream.ofText " a . b = 1.5 - c ;").tokens =
      ⟨some [settingAt 1.5 1 5 13 15], []⟩ := by
    rw [otherTokens, ← otherNumber]
    rfl
  have plain (object name minus operand : Nat) :
      ∀ literal ∈ Stmt.literalsOfAll [settingAt 1.5 object name minus operand], literal.Plain := by
    intro literal member
    rw [List.mem_singleton.1 member]
    exact finite
  have shown : Notation.stmt (settingAt 1.5 0 2 8 9) = some "(; (= a b (- 1.5 c)))" := by
    decide +kernel
  have otherShown : Notation.stmt (settingAt 1.5 1 5 13 15) = some "(; (= a b (- 1.5 c)))" := shown
  have faithful := notation_is_faithful read otherRead (plain 0 2 8 9) (plain 1 5 13 15)
  exact ⟨read, otherRead, shown, otherShown, List.singleton_inj.1 (faithful.1 rfl)⟩

end LoxLang
