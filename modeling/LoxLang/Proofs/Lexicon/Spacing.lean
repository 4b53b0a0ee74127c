import LoxLang.Proofs.Joining
import LoxLang.Proofs.Lexicon.Placing
import LoxLang.Token.Listing

/-!
# Spacing

The tokens of a text can be written with anything between them that begins with a blank and
goes on with blanks and whole comments.  What is read then are the same tokens, elsewhere;
whatever else was in the text is gone, and with it all that was wrong with its lexemes.
-/

namespace LoxLang

/-- Blanks and comments, each comment up to the end of its line. -/
inductive Filler : List Char → Prop where
  | nil : Filler []
  | blank {c : Char} {rest : List Char} (blank : Lexeme.isBlank c = true) (filler : Filler rest) :
      Filler (c :: rest)
  | comment {body rest : List Char} (oneLine : '\n' ∉ body) (filler : Filler rest) :
      Filler ('/' :: '/' :: (body ++ '\n' :: rest))

/-- A separator is a filler that begins with a blank. -/
def Separates (gap : String) : Prop :=
  ∃ c rest, gap.toList = c :: rest ∧ Lexeme.isBlank c = true ∧ Filler rest

/-- The lexemes of tokens, each with the gap that follows it. -/
def spacedOut (lead : String) : List (Token × String) → String
  | [] => lead
  | (token, gap) :: rest => lead ++ token.lexeme ++ spacedOut gap rest

/-- What a token is, apart from where it stands. -/
def Token.content (token : Token) : TokenKind × String × Option Literal :=
  (token.kind, token.lexeme, token.literal?)

/-- A listing shows nothing of a token but its content. -/
theorem TokenStream.listed_eq_of_content {stream twin : TokenStream}
    (same : twin.tokens.map Token.content = stream.tokens.map Token.content) :
    twin.listed = stream.listed := by
  have throughContent : Token.listed =
      (fun content => (⟨Mark.start, content.1, content.2.1⟩ : Token).listed) ∘ Token.content := rfl
  unfold listed
  rw [throughContent, ← List.map_map, ← List.map_map, same]

/-- The token is what is read of the lexeme. -/
structure Token.ComesFrom (token : Token) (lexeme : Lexeme) : Prop where
  rule : Lexeme.Rule lexeme.kind lexeme.chars
  kind : PlacedLexeme.tokenKind? lexeme = some token.kind
  chars : token.lexeme = String.ofList lexeme.chars

theorem TokenStream.exists_comesFrom {text : String} {token : Token}
    (member : token ∈ (TokenStream.ofText text).tokens) : ∃ lexeme, token.ComesFrom lexeme := by
  obtain ⟨placed, inText, isToken⟩ := List.mem_filterMap.1 member
  obtain ⟨kind, kindOf, rfl⟩ := Option.map_eq_some_iff.1 isToken
  exact ⟨placed.toLexeme, (PlacedLexeme.foundIn inText).rule, kindOf, rfl⟩

/-! ## Reading what is spaced out -/

section Reading

variable {α : Type} {view : PlacedLexeme → Option α}

/-- A view that sees nothing in blanks and comments. -/
structure SkipsFillers (view : PlacedLexeme → Option α) : Prop where
  blanks : SkipsBlanks view
  comments : ∀ placed : PlacedLexeme, placed.kind = .comment → view placed = none

theorem readFrom_comment (skips : SkipsFillers view) (mark : Mark) {body : List Char}
    (oneLine : '\n' ∉ body) (after : List Char) :
    readFrom view mark ('/' :: '/' :: (body ++ '\n' :: after)) =
      readFrom view (mark.advance ('/' :: '/' :: body)) ('\n' :: after) := by
  have passes : ∀ c ∈ '/' :: body, (c != '\n') = true := by
    intro c member
    refine bne_iff_ne.2 ?_
    rintro rfl
    simp [oneLine] at member
  have isFirst : Lexeme.first '/' ('/' :: body ++ '\n' :: after) =
      ⟨.comment, '/' :: '/' :: body⟩ := by
    have unfolded : Lexeme.first '/' ('/' :: body ++ '\n' :: after) =
      ⟨.comment, '/' :: ('/' :: body ++ '\n' :: after).takeWhile (· != '\n')⟩ := rfl
    rw [unfolded, Lexeme.takeWhile_of_stop passes (by decide)]
  rw [← List.cons_append, readFrom_cons, isFirst, skips.comments _ rfl, List.tail_cons,
    List.drop_left]
  rfl

theorem readFrom_blank (skips : SkipsFillers view) (mark : Mark) {c : Char}
    (blank : Lexeme.isBlank c = true) (after : List Char) :
    readFrom view mark (c :: after) = readFrom view (mark.advance [c]) after :=
  readFrom_blanks_append skips.blanks (List.forall_mem_singleton.2 blank) mark after

/-- Nothing is read of a filler. -/
theorem readFrom_filler (skips : SkipsFillers view) {filler : List Char} (isFiller : Filler filler)
    (mark : Mark) (after : List Char) :
    readFrom view mark (filler ++ after) = readFrom view (mark.advance filler) after := by
  induction isFiller generalizing mark with
  | nil => rfl
  | blank blank _ induction =>
      rw [List.cons_append, readFrom_blank skips mark blank, induction, Mark.advance_advance]
      rfl
  | @comment body rest oneLine _ induction =>
      have whole : '/' :: '/' :: (body ++ '\n' :: rest) ++ after =
          '/' :: '/' :: (body ++ '\n' :: (rest ++ after)) := by simp
      rw [whole, readFrom_comment skips mark oneLine, readFrom_blank skips _ (by decide), induction,
        Mark.advance_advance, Mark.advance_advance]
      simp

/-- In front of a blank the lexeme of a token is read whole. -/
theorem readFrom_token {token : Token} {lexeme : Lexeme} (comesFrom : token.ComesFrom lexeme)
    (mark : Mark) {b : Char} (blank : Lexeme.isBlank b = true) (after : List Char) :
    readFrom view mark (token.lexeme.toList ++ b :: after) =
      (view ⟨lexeme, mark⟩).toList ++
        readFrom view (mark.advance token.lexeme.toList) (b :: after) := by
  obtain ⟨kind, chars⟩ := lexeme
  obtain ⟨rule, kindOf, same⟩ := comesFrom
  dsimp only at rule same
  rw [same, String.toList_ofList]
  have isToken : kind ∈ [.punctuation, .number, .text, .word] := by
    cases kind with
    | blank | comment | openText | stray => cases kindOf
    | _ => decide
  obtain ⟨c, more, rfl⟩ := List.exists_cons_of_ne_nil rule.chars_ne_nil
  rw [List.cons_append, readFrom_cons, rule.first_eq isToken blank, List.tail_cons, List.drop_left]

/-- What is read of tokens that are spaced out is what the view sees in their lexemes. -/
theorem readFrom_spacedOut (skips : SkipsFillers view) {seen : Token → Option α}
    (sees : ∀ token lexeme, token.ComesFrom lexeme → ∀ mark, view ⟨lexeme, mark⟩ = seen token)
    {lead : String} {pairs : List (Token × String)} (leads : Separates lead)
    (separate : ∀ pair ∈ pairs, Separates pair.2)
    (tokens : ∀ pair ∈ pairs, ∃ lexeme, pair.1.ComesFrom lexeme) (mark : Mark) :
    readFrom view mark (spacedOut lead pairs).toList = pairs.filterMap fun pair => seen pair.1 := by
  have skipsLead {gap : String} (separates : Separates gap) (mark : Mark) (after : List Char) :
      readFrom view mark (gap.toList ++ after) = readFrom view (mark.advance gap.toList) after := by
    obtain ⟨c, rest, begins, blank, filler⟩ := separates
    rw [begins]
    exact readFrom_filler skips (.blank blank filler) mark after
  induction pairs generalizing lead mark with
  | nil =>
      have nothing := skipsLead leads mark []
      rw [List.append_nil, readFrom_nil] at nothing
      exact nothing
  | cons pair rest induction =>
      obtain ⟨token, gap⟩ := pair
      obtain ⟨gapSeparates, restSeparate⟩ := List.forall_mem_cons.1 separate
      obtain ⟨⟨lexeme, comesFrom⟩, restTokens⟩ := List.forall_mem_cons.1 tokens
      have later := induction gapSeparates restSeparate restTokens
      -- The gap behind the token is where the lexeme ends.
      obtain ⟨b, after, begins, blank⟩ : ∃ b after, (spacedOut gap rest).toList = b :: after ∧
          Lexeme.isBlank b = true := by
        obtain ⟨b, more, begins, blank, _⟩ := gapSeparates
        cases rest <;> simp [spacedOut, begins, blank]
      rw [spacedOut, String.toList_append, String.toList_append, List.append_assoc,
        skipsLead leads, begins, readFrom_token comesFrom _ blank, ← begins, later,
        sees token lexeme comesFrom, List.filterMap_cons]
      cases seen token <;> rfl

end Reading

theorem Token.ComesFrom.content {token : Token} {lexeme : Lexeme}
    (comesFrom : token.ComesFrom lexeme) (mark : Mark) :
    (PlacedLexeme.token? ⟨lexeme, mark⟩).map Token.content = some token.content := by
  simp [PlacedLexeme.token?, comesFrom.kind, Token.content, Token.literal?, comesFrom.chars]

theorem Token.ComesFrom.error? {token : Token} {lexeme : Lexeme}
    (comesFrom : token.ComesFrom lexeme) :
    PlacedLexeme.error? lexeme.kind = none := by
  have isToken := comesFrom.kind
  obtain ⟨kind, chars⟩ := lexeme
  cases kind with
  | openText | stray => cases isToken
  | _ => rfl

theorem content_skipsFillers :
    SkipsFillers fun placed => placed.token?.map Token.content where
  blanks placed blank := Option.map_eq_none_iff.2 (PlacedLexeme.token?_skipsBlanks placed blank)
  comments placed comment := by simp [PlacedLexeme.token?, PlacedLexeme.tokenKind?, comment]

theorem error?_skipsFillers : SkipsFillers fun placed => PlacedLexeme.error? placed.kind where
  blanks := PlacedLexeme.error?_skipsBlanks
  comments placed comment := by simp [PlacedLexeme.error?, comment]

theorem TokenStream.map_content (text : String) :
    (ofText text).tokens.map Token.content =
      readFrom (fun placed => placed.token?.map Token.content) Mark.start text.toList := by
  unfold ofText readFrom placedLexemes
  rw [List.map_filterMap]

/-- Layout makes no difference to the tokens.  Their lexemes may be written with any separators
between them: nothing is wrong then, and what is read are the same tokens, up to the end. -/
theorem layout_makes_no_difference (text lead : String) (gaps : List String)
    (enough : gaps.length = (TokenStream.ofText text).tokens.length)
    (separate : ∀ gap ∈ lead :: gaps, Separates gap) :
    let spaced := spacedOut lead ((TokenStream.ofText text).tokens.zip gaps)
    TokenStream.issuesOf spaced = [] ∧
      (TokenStream.ofText spaced).tokens.map Token.content =
        (TokenStream.ofText text).tokens.map Token.content ∧
      (TokenStream.ofText spaced).listed = (TokenStream.ofText text).listed := by
  intro spaced
  obtain ⟨leads, gapsSeparate⟩ := List.forall_mem_cons.1 separate
  have pairsSeparate : ∀ pair ∈ (TokenStream.ofText text).tokens.zip gaps, Separates pair.2 :=
    fun pair member => gapsSeparate pair.2 (List.of_mem_zip member).2
  have pairsTokens : ∀ pair ∈ (TokenStream.ofText text).tokens.zip gaps,
      ∃ lexeme, pair.1.ComesFrom lexeme :=
    fun pair member => TokenStream.exists_comesFrom (List.of_mem_zip member).1
  have sameContent : (TokenStream.ofText spaced).tokens.map Token.content =
      (TokenStream.ofText text).tokens.map Token.content := by
    rw [TokenStream.map_content, readFrom_spacedOut content_skipsFillers
      (fun _ _ comesFrom => comesFrom.content) leads pairsSeparate pairsTokens]
    calc ((TokenStream.ofText text).tokens.zip gaps).filterMap (fun pair => some pair.1.content)
      _ = (((TokenStream.ofText text).tokens.zip gaps).map Prod.fst).map Token.content := by
          rw [List.map_map]
          exact congrFun List.filterMap_eq_map _
      _ = (TokenStream.ofText text).tokens.map Token.content := by
          rw [List.map_fst_zip (Nat.le_of_eq enough.symm)]
  refine ⟨?_, sameContent, ?_⟩
  · rw [TokenStream.issuesOf_eq_nil, readFrom_spacedOut error?_skipsFillers
      (fun _ _ comesFrom _ => comesFrom.error?) leads pairsSeparate pairsTokens]
    exact List.filterMap_none _
  · exact TokenStream.listed_eq_of_content sameContent

/-- A number in front of a point, a text over two lines, a stray character and open quotes: spaced
out there are five tokens left. -/
theorem layout_makes_no_difference_respaced :
    let text := "1.2.x//y\n@if\"q\n/\" \"open"
    let spaced := "\n1.2\t. // 2\nx if\r\"q\n/\" //\n"
    (TokenStream.issuesOf text).length = 2 ∧ (TokenStream.ofText text).tokens.length = 5 ∧
      TokenStream.issuesOf spaced = [] ∧
      (TokenStream.ofText spaced).tokens.map Token.content =
        (TokenStream.ofText text).tokens.map Token.content := by
  intro text spaced
  have issues : (TokenStream.issuesOf text).length = 2 := by decide +kernel
  have length : (TokenStream.ofText text).tokens.length = 5 := by decide +kernel
  have isSpaced : spacedOut "\n" ((TokenStream.ofText text).tokens.zip
      ["\t", " // 2\n", " ", "\r", " //\n"]) = spaced := by decide +kernel
  have separate : ∀ gap ∈ ["\n", "\t", " // 2\n", " ", "\r", " //\n"], Separates gap := by
    have alone (c : Char) (blank : Lexeme.isBlank c = true) : Separates (String.singleton c) :=
      ⟨c, [], by simp, blank, .nil⟩
    have comment (body : List Char) (oneLine : '\n' ∉ body) :
        Separates (String.ofList (' ' :: '/' :: '/' :: (body ++ ['\n']))) :=
      ⟨' ', _, String.toList_ofList, by decide, .comment oneLine .nil⟩
    simp only [List.forall_mem_cons]
    exact ⟨alone '\n' rfl, alone '\t' rfl, comment [' ', '2'] (by decide), alone ' ' rfl,
      alone '\r' rfl, comment [] (by decide), by simp⟩
  obtain ⟨clean, same, _⟩ := layout_makes_no_difference text "\n"
    ["\t", " // 2\n", " ", "\r", " //\n"] length.symm separate
  rw [isSpaced] at clean same
  exact ⟨issues, length, clean, same⟩

end LoxLang
