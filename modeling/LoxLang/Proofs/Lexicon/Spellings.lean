import LoxLang.Proofs.Lexicon.Rules
import LoxLang.Proofs.Words

/-!
# Tokens told by their lexemes

A token of a text comes from a lexeme that obeys the rule for its kind.  Numbers and texts aside,
the lexeme tells the kind of the token.
-/

namespace LoxLang

/-- The characters of every lexeme in a sequence obey the rule for its kind. -/
theorem Lexeme.Sequence.rule {lexemes : List Lexeme} (sequence : Sequence lexemes) :
    ∀ lexeme ∈ lexemes, Rule lexeme.kind lexeme.chars := by
  induction sequence with
  | nil => simp
  | cons found _ induction => exact List.forall_mem_cons.2 ⟨rule_of_first found, induction⟩

theorem Lexeme.IsWord.ofPunctuation_eq_none {chars : List Char} (isWord : IsWord chars) :
    TokenKind.ofPunctuation chars = none := by
  have each : ∀ entry ∈ TokenKind.punctuation, entry.1.head?.any startsWord = false := by decide
  obtain ⟨c, more, rfl, starts, -⟩ := isWord
  cases found : TokenKind.ofPunctuation (c :: more) with
  | none => rfl
  | some kind =>
      have notStarts : startsWord c = false := each _ (TokenKind.mem_punctuation found)
      rw [starts] at notStarts
      cases notStarts

/-- The kind of a token with this lexeme that is neither a number nor a text. -/
def TokenKind.ofSpelling (word : String) : TokenKind :=
  (ofPunctuation word.toList).getD (ofWord word)

/-- The token is what becomes of a lexeme that obeys the rule for its kind. -/
def Token.Spelled (token : Token) : Prop :=
  ∃ lexeme : Lexeme, Lexeme.Rule lexeme.kind lexeme.chars ∧
    PlacedLexeme.tokenKind? lexeme = some token.kind ∧ token.lexeme = String.ofList lexeme.chars

/-- All tokens of a text are spelled in this way. -/
theorem TokenStream.spelled {text : String} {token : Token}
    (member : token ∈ (TokenStream.ofText text).tokens) : token.Spelled := by
  obtain ⟨placed, isPlaced, isToken⟩ := List.mem_filterMap.1 member
  obtain ⟨kind, kindOf, rfl⟩ := Option.map_eq_some_iff.1 isToken
  have isLexeme : placed.toLexeme ∈ Lexeme.all text.toList := by
    rw [← PlacedLexeme.map_toLexeme_place Mark.start (Lexeme.all text.toList)]
    exact List.mem_map_of_mem isPlaced
  exact ⟨placed.toLexeme, (Lexeme.sequence_all text.toList).rule _ isLexeme, kindOf, rfl⟩

namespace Token.Spelled

variable {token : Token}

/-- Punctuation and words are told by their lexemes. -/
theorem cases (spelled : token.Spelled) (notNumber : token.kind ≠ .number)
    (notText : token.kind ≠ .string) :
    TokenKind.ofPunctuation token.lexeme.toList = some token.kind ∨
      (Lexeme.IsWord token.lexeme.toList ∧ TokenKind.ofWord token.lexeme = token.kind) := by
  obtain ⟨lexeme, obeys, kindOf, spelling⟩ := spelled
  obtain ⟨kind, chars⟩ := lexeme
  rw [spelling, String.toList_ofList]
  cases obeys with
  | lone | single | double => exact .inl kindOf
  | word isWord => exact .inr ⟨isWord, Option.some.inj kindOf⟩
  | whole | fraction => exact absurd (Option.some.inj kindOf).symm notNumber
  | text => exact absurd (Option.some.inj kindOf).symm notText
  | blank | comment | openText | stray => cases kindOf

theorem ofSpelling_eq (spelled : token.Spelled) (notNumber : token.kind ≠ .number)
    (notText : token.kind ≠ .string) : TokenKind.ofSpelling token.lexeme = token.kind := by
  rw [TokenKind.ofSpelling]
  rcases spelled.cases notNumber notText with punctuation | ⟨isWord, kind⟩
  · rw [punctuation, Option.getD_some]
  · rw [isWord.ofPunctuation_eq_none, Option.getD_none, kind]

/-- An identifier is a word, and none of the keywords. -/
theorem isWord (spelled : token.Spelled) (isName : token.kind = .identifier) :
    Lexeme.IsWord token.lexeme.toList := by
  rcases spelled.cases (by simp [isName]) (by simp [isName]) with punctuation | ⟨isWord, -⟩
  · rw [isName] at punctuation
    exact absurd rfl (TokenKind.ofPunctuation_ne punctuation).1
  · exact isWord

end Token.Spelled

end LoxLang
