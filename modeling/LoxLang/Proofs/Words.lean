import LoxLang.Token.Stream

/-!
# Words

The kind of a token that is a word is told by the word: an identifier is never
spelled like a keyword, and a keyword is always spelled the same.
-/

namespace LoxLang

/-- The token is spelled as its kind demands, as far as names are concerned. -/
structure Token.Worded (token : Token) : Prop where
  identifier : token.kind = .identifier → TokenKind.ofWord token.lexeme = .identifier
  this : token.kind = .kwThis → token.lexeme = "this"
  super : token.kind = .kwSuper → token.lexeme = "super"

/-- No keyword passes for an identifier. -/
theorem TokenKind.ne_of_ofWord {word keyword : String}
    (isIdentifier : TokenKind.ofWord word = .identifier)
    (isKeyword : TokenKind.ofWord keyword ≠ .identifier) : word ≠ keyword := by
  intro same
  exact isKeyword (same ▸ isIdentifier)

theorem Token.Worded.ne_this {token : Token} (worded : token.Worded)
    (isName : token.kind = .identifier) : token.lexeme ≠ "this" :=
  TokenKind.ne_of_ofWord (worded.identifier isName) (by decide)

theorem Token.Worded.ne_super {token : Token} (worded : token.Worded)
    (isName : token.kind = .identifier) : token.lexeme ≠ "super" :=
  TokenKind.ne_of_ofWord (worded.identifier isName) (by decide)

/-- A word that is no identifier stands among the keywords. -/
theorem TokenKind.mem_keywords {word : String} {kind : TokenKind}
    (isKind : TokenKind.ofWord word = kind) (isKeyword : kind ≠ .identifier) :
    (word, kind) ∈ keywords := by
  unfold ofWord at isKind
  cases found : keywords.lookup word with
  | none =>
      rw [found] at isKind
      exact absurd isKind.symm isKeyword
  | some known =>
      rw [found] at isKind
      obtain ⟨before, later, split, _⟩ := List.lookup_eq_some_iff.1 found
      rw [split, ← isKind]
      simp

theorem TokenKind.eq_this {word : String} (isThis : TokenKind.ofWord word = .kwThis) :
    word = "this" := by
  have member := mem_keywords isThis (by decide)
  simpa [keywords] using member

theorem TokenKind.eq_super {word : String} (isSuper : TokenKind.ofWord word = .kwSuper) :
    word = "super" := by
  have member := mem_keywords isSuper (by decide)
  simpa [keywords] using member

/-- All punctuation, with the kinds of its tokens. -/
def TokenKind.punctuation : List (List Char × TokenKind) :=
  [(['('], leftParen), ([')'], rightParen), (['{'], leftBrace), (['}'], rightBrace),
   ([','], comma), (['.'], dot), (['-'], minus), (['+'], plus), ([';'], semicolon),
   (['*'], star), (['/'], slash), (['!'], bang), (['!', '='], bangEqual), (['='], equal),
   (['=', '='], equalEqual), (['<'], less), (['<', '='], lessEqual), (['>'], greater),
   (['>', '='], greaterEqual)]

theorem TokenKind.mem_punctuation {chars : List Char} {kind : TokenKind}
    (found : TokenKind.ofPunctuation chars = some kind) : (chars, kind) ∈ punctuation := by
  unfold ofPunctuation at found
  split at found <;> cases found <;> exact List.mem_of_elem_eq_true rfl

theorem TokenKind.ofPunctuation_ne {chars : List Char} {kind : TokenKind}
    (found : TokenKind.ofPunctuation chars = some kind) :
    kind ≠ .identifier ∧ kind ≠ .kwThis ∧ kind ≠ .kwSuper := by
  have each : ∀ entry ∈ punctuation, entry.2 ≠ .identifier ∧ entry.2 ≠ .kwThis ∧
      entry.2 ≠ .kwSuper := by decide
  exact each _ (mem_punctuation found)

theorem PlacedLexeme.token?_worded {placed : PlacedLexeme} {token : Token}
    (isToken : placed.token? = some token) : token.Worded := by
  obtain ⟨kind, kindOf, rfl⟩ := Option.map_eq_some_iff.1 isToken
  unfold tokenKind? at kindOf
  split at kindOf
  · obtain ⟨notName, notThis, notSuper⟩ := TokenKind.ofPunctuation_ne kindOf
    exact ⟨fun isName => absurd isName notName, fun isThis => absurd isThis notThis,
      fun isSuper => absurd isSuper notSuper⟩
  · cases kindOf
    constructor <;> intro impossible <;> cases impossible
  · cases kindOf
    constructor <;> intro impossible <;> cases impossible
  · cases kindOf
    exact ⟨fun isName => isName, TokenKind.eq_this, TokenKind.eq_super⟩
  all_goals cases kindOf

/-- All tokens that are read from a text are spelled as their kinds demand. -/
theorem TokenStream.worded {text : String} {token : Token}
    (member : token ∈ (TokenStream.ofText text).tokens) : token.Worded := by
  obtain ⟨placed, _, isToken⟩ := List.mem_filterMap.1 member
  exact PlacedLexeme.token?_worded isToken

end LoxLang
