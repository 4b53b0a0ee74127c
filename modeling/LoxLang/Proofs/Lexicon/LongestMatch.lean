import LoxLang.Proofs.Lexicon.Taking
import LoxLang.Token.Stream
import Mathlib.Computability.Language

/-!
# The longest match

Nine rules, each a regular language, say what a lexeme may be.  Wherever a lexeme begins the
longest prefix that any of the rules matches is taken, and this is one that only one of them
matches.  The sequence of these longest matches is the one that a single pass over the text
finds, in which one or two characters tell where each lexeme ends.
-/

namespace LoxLang

/-- A class of characters, by single characters and by ranges. -/
structure CharClass where
  singles : List Char
  ranges : List (Char × Char)

namespace CharClass

/-- Whether a character is in the class. -/
def has (cls : CharClass) (c : Char) : Bool :=
  cls.singles.any (c == ·) || cls.ranges.any fun range => range.1 ≤ c && c ≤ range.2

def blanks : CharClass := ⟨[' ', '\t', '\r', '\n'], []⟩

def punctuation : CharClass := ⟨['-', '(', ')', '{', '}', ',', '.', '+', ';', '*', '/'], []⟩

def comparisons : CharClass := ⟨['!', '=', '<', '>'], []⟩

def digits : CharClass := ⟨[], [('0', '9')]⟩

def initials : CharClass := ⟨['_'], [('A', 'Z'), ('a', 'z')]⟩

def wordParts : CharClass := ⟨['_'], [('A', 'Z'), ('a', 'z'), ('0', '9')]⟩

/-- All characters with which one of the other rules begins. -/
def known : CharClass :=
  ⟨['-', '(', ')', '{', '}', ',', '.', '+', ';', '*', '/', '!', '=', '<', '>', '"', '_', ' ', '\t',
    '\r', '\n'], [('0', '9'), ('A', 'Z'), ('a', 'z')]⟩

variable (c : Char)

theorem has_blanks : blanks.has c = Lexeme.isBlank c := by
  simp [has, blanks, Lexeme.isBlank, Bool.or_assoc]

theorem has_punctuation : punctuation.has c = Lexeme.isLonePunctuation c := by
  simp [has, punctuation, Lexeme.isLonePunctuation, Bool.or_assoc]

theorem has_comparisons : comparisons.has c = Lexeme.mayTakeEqual c := by
  simp [has, comparisons, Lexeme.mayTakeEqual, Bool.or_assoc]

theorem has_digits : digits.has c = Lexeme.isDigit c := by
  simp [has, digits, Lexeme.isDigit]

theorem has_initials : initials.has c = Lexeme.startsWord c := by
  simp [has, initials, Lexeme.startsWord, Bool.or_comm]

theorem has_wordParts : wordParts.has c = Lexeme.continuesWord c := by
  simp [has, wordParts, Lexeme.continuesWord, Lexeme.startsWord, Lexeme.isDigit, Bool.or_comm,
    Bool.or_left_comm]

/-- The rules between them begin with every character but the strays. -/
theorem has_known : known.has c = !Lexeme.isStray c := by
  have singles : known.singles = punctuation.singles ++ comparisons.singles ++ ['"'] ++
      initials.singles ++ blanks.singles := rfl
  have ranges : known.ranges = digits.ranges ++ initials.ranges := rfl
  simp only [Lexeme.isStray, Bool.not_not, ← has_blanks, ← has_punctuation, ← has_comparisons,
    ← has_digits, ← has_initials, has, singles, ranges, List.any_append]
  simp only [blanks, punctuation, comparisons, digits, List.any_cons, List.any_nil,
    Bool.or_false, Bool.false_or]
  ac_rfl

end CharClass

/-! ## The rules as languages -/

section Languages

open scoped Computability

variable {test : Char → Bool} {chars : List Char} {rest : Language Char}

/-- The texts of one character that passes a test. -/
def oneOf (test : Char → Bool) : Language Char := {chars | ∃ c, test c = true ∧ chars = [c]}

theorem mem_oneOf_mul : chars ∈ oneOf test * rest ↔
    ∃ c more, chars = c :: more ∧ test c = true ∧ more ∈ rest := by
  rw [Language.mem_mul]
  constructor
  · rintro ⟨_, ⟨c, passes, rfl⟩, more, inRest, rfl⟩
    exact ⟨c, more, rfl, passes, inRest⟩
  · rintro ⟨c, more, rfl, passes, inRest⟩
    exact ⟨[c], ⟨c, passes, rfl⟩, more, inRest, rfl⟩

theorem mem_kstar_oneOf : chars ∈ (oneOf test)∗ ↔ ∀ c ∈ chars, test c = true := by
  rw [Language.mem_kstar]
  constructor
  · rintro ⟨pieces, rfl, each⟩ c member
    obtain ⟨piece, isPiece, inPiece⟩ := List.mem_flatten.1 member
    obtain ⟨d, passes, rfl⟩ := each piece isPiece
    rwa [List.mem_singleton.1 inPiece]
  · intro passes
    refine ⟨chars.map ([·]), by rw [← List.flatMap_def, List.flatMap_singleton'], ?_⟩
    intro piece isPiece
    obtain ⟨c, member, rfl⟩ := List.mem_map.1 isPiece
    exact ⟨c, passes c member, rfl⟩

/-- What one of a class of characters begins and any number of another class goes on with. -/
theorem mem_oneOf_mul_kstar {others : Char → Bool} : chars ∈ oneOf test * (oneOf others)∗ ↔
    ∃ c more, chars = c :: more ∧ test c = true ∧ ∀ d ∈ more, others d = true := by
  simp only [mem_oneOf_mul, mem_kstar_oneOf]

theorem mem_oneOf_char {c : Char} : chars ∈ oneOf (· == c) ↔ chars = [c] := by
  constructor
  · rintro ⟨d, same, rfl⟩
    rw [beq_iff_eq.1 same]
  · rintro rfl
    exact ⟨c, beq_self_eq_true c, rfl⟩

end Languages

/-- The rules by which a text is cut into lexemes. -/
inductive LexicalRule where
  | blank | comment | punctuation | comparison | number | text | openText | word | stray
deriving DecidableEq

namespace LexicalRule

open scoped Computability

/-- What the rule matches. -/
def language : LexicalRule → Language Char
  | blank => oneOf CharClass.blanks.has * (oneOf CharClass.blanks.has)∗
  | comment => oneOf (· == '/') * (oneOf (· == '/') * (oneOf (· != '\n'))∗)
  | punctuation => oneOf CharClass.punctuation.has
  | comparison => oneOf CharClass.comparisons.has * (1 + oneOf (· == '='))
  | number =>
      oneOf CharClass.digits.has * ((oneOf CharClass.digits.has)∗ *
        (1 + oneOf (· == '.') * (oneOf CharClass.digits.has * (oneOf CharClass.digits.has)∗)))
  | text => oneOf (· == '"') * ((oneOf (· != '"'))∗ * oneOf (· == '"'))
  | openText => oneOf (· == '"') * (oneOf (· != '"'))∗
  | word => oneOf CharClass.initials.has * (oneOf CharClass.wordParts.has)∗
  | stray => oneOf (fun c => !CharClass.known.has c)

/-- The kind of the lexemes that the rule makes. -/
def kind : LexicalRule → LexemeKind
  | blank => .blank
  | comment => .comment
  | punctuation | comparison => .punctuation
  | number => .number
  | text => .text
  | openText => .openText
  | word => .word
  | stray => .stray

variable {rule other : LexicalRule} {chars : List Char}

/-- What a rule matches is what is said of its kind. -/
theorem obeyed (matched : chars ∈ rule.language) : Lexeme.Rule rule.kind chars := by
  cases rule with
  | blank =>
      obtain ⟨c, more, rfl, begins, blanks⟩ := mem_oneOf_mul_kstar.1 matched
      refine .blank (List.cons_ne_nil _ _) (List.forall_mem_cons.2 ⟨?_, fun d member => ?_⟩)
      · rwa [← CharClass.has_blanks]
      · rw [← CharClass.has_blanks, blanks d member]
  | comment =>
      obtain ⟨c, _, rfl, slash, after⟩ := mem_oneOf_mul.1 matched
      obtain ⟨d, body, rfl, second, oneLine⟩ := mem_oneOf_mul_kstar.1 after
      rw [beq_iff_eq.1 slash, beq_iff_eq.1 second]
      exact .comment fun newline => by simpa using oneLine _ newline
  | punctuation =>
      obtain ⟨c, lone, rfl⟩ := matched
      rw [CharClass.has_punctuation] at lone
      exact .lone lone
  | comparison =>
      obtain ⟨c, more, rfl, takes, after⟩ := mem_oneOf_mul.1 matched
      rw [CharClass.has_comparisons] at takes
      rcases (Language.mem_add _ _ _).1 after with nothing | equal
      · rw [(Language.mem_one _).1 nothing]
        exact .single takes
      · rw [mem_oneOf_char.1 equal]
        exact .double takes
  | number =>
      obtain ⟨c, _, rfl, digit, after⟩ := mem_oneOf_mul.1 matched
      obtain ⟨more, digits, tail, follows, rfl⟩ := Language.mem_mul.1 after
      simp only [mem_kstar_oneOf, CharClass.has_digits] at digit digits
      rcases (Language.mem_add _ _ _).1 follows with nothing | fraction
      · rw [(Language.mem_one _).1 nothing, List.append_nil]
        exact .whole digit digits
      · obtain ⟨point, _, rfl, isPoint, afterPoint⟩ := mem_oneOf_mul.1 fraction
        obtain ⟨d, part, rfl, partDigit, partDigits⟩ := mem_oneOf_mul_kstar.1 afterPoint
        simp only [CharClass.has_digits] at partDigit partDigits
        rw [beq_iff_eq.1 isPoint]
        exact .fraction digit digits partDigit partDigits
  | text =>
      obtain ⟨c, _, rfl, quote, after⟩ := mem_oneOf_mul.1 matched
      obtain ⟨inner, closed, last, isLast, rfl⟩ := Language.mem_mul.1 after
      rw [beq_iff_eq.1 quote, mem_oneOf_char.1 isLast]
      exact .text fun early => by simpa using mem_kstar_oneOf.1 closed _ early
  | openText =>
      obtain ⟨c, inner, rfl, quote, unclosed⟩ := mem_oneOf_mul_kstar.1 matched
      rw [beq_iff_eq.1 quote]
      exact .openText fun early => by simpa using unclosed _ early
  | word =>
      obtain ⟨c, more, rfl, starts, continues⟩ := mem_oneOf_mul_kstar.1 matched
      simp only [CharClass.has_initials, CharClass.has_wordParts] at starts continues
      exact .word ⟨c, more, rfl, starts, continues⟩
  | stray =>
      obtain ⟨c, unknown, rfl⟩ := matched
      simp only [CharClass.has_known, Bool.not_not] at unknown
      exact .stray unknown

/-- Whatever is said of a kind of lexeme is matched by a rule for it. -/
theorem exists_of_obeyed {kind : LexemeKind} (obeys : Lexeme.Rule kind chars) :
    ∃ rule : LexicalRule, rule.kind = kind ∧ chars ∈ rule.language := by
  cases obeys with
  | blank nonempty blank =>
      obtain ⟨c, more, rfl⟩ := List.exists_cons_of_ne_nil nonempty
      obtain ⟨begins, blanks⟩ := List.forall_mem_cons.1 blank
      refine ⟨LexicalRule.blank, rfl, mem_oneOf_mul_kstar.2 ⟨c, more, rfl, ?_, fun d member => ?_⟩⟩
      · rwa [CharClass.has_blanks]
      · rw [CharClass.has_blanks, blanks d member]
  | comment oneLine =>
      refine ⟨LexicalRule.comment, rfl, mem_oneOf_mul.2 ⟨'/', _, rfl, rfl, ?_⟩⟩
      exact mem_oneOf_mul_kstar.2 ⟨'/', _, rfl, rfl, Lexeme.passes_of_not_mem oneLine⟩
  | lone lone =>
      exact ⟨.punctuation, rfl, _, (CharClass.has_punctuation _).trans lone, rfl⟩
  | single takes =>
      refine ⟨comparison, rfl, mem_oneOf_mul.2 ⟨_, [], rfl, ?_, ?_⟩⟩
      · exact (CharClass.has_comparisons _).trans takes
      · exact (Language.mem_add _ _ _).2 (.inl Language.nil_mem_one)
  | double takes =>
      refine ⟨comparison, rfl, mem_oneOf_mul.2 ⟨_, ['='], rfl, ?_, ?_⟩⟩
      · exact (CharClass.has_comparisons _).trans takes
      · exact (Language.mem_add _ _ _).2 (.inr (mem_oneOf_char.2 rfl))
  | whole digit digits =>
      refine ⟨number, rfl, mem_oneOf_mul.2 ⟨_, _, rfl, (CharClass.has_digits _).trans digit, ?_⟩⟩
      refine Language.mem_mul.2 ⟨_, mem_kstar_oneOf.2 fun d member => ?_, [], ?_, List.append_nil _⟩
      · exact (CharClass.has_digits d).trans (digits d member)
      · exact (Language.mem_add _ _ _).2 (.inl Language.nil_mem_one)
  | fraction digit digits partDigit partDigits =>
      refine ⟨number, rfl, mem_oneOf_mul.2 ⟨_, _, rfl, (CharClass.has_digits _).trans digit, ?_⟩⟩
      refine Language.mem_mul.2 ⟨_, mem_kstar_oneOf.2 fun d member => ?_, _, ?_, rfl⟩
      · exact (CharClass.has_digits d).trans (digits d member)
      · refine (Language.mem_add _ _ _).2 (.inr (mem_oneOf_mul.2 ⟨'.', _, rfl, rfl, ?_⟩))
        exact mem_oneOf_mul_kstar.2 ⟨_, _, rfl, (CharClass.has_digits _).trans partDigit,
          fun d member => (CharClass.has_digits d).trans (partDigits d member)⟩
  | text closed =>
      refine ⟨LexicalRule.text, rfl, mem_oneOf_mul.2 ⟨'"', _, rfl, rfl, ?_⟩⟩
      exact Language.mem_mul.2 ⟨_, mem_kstar_oneOf.2 (Lexeme.passes_of_not_mem closed), _,
        mem_oneOf_char.2 rfl, rfl⟩
  | openText unclosed =>
      exact ⟨LexicalRule.openText, rfl, mem_oneOf_mul_kstar.2 ⟨'"', _, rfl, rfl,
        Lexeme.passes_of_not_mem unclosed⟩⟩
  | word isWord =>
      obtain ⟨c, more, rfl, starts, continues⟩ := isWord
      exact ⟨LexicalRule.word, rfl, mem_oneOf_mul_kstar.2 ⟨c, more, rfl,
        (CharClass.has_initials c).trans starts, fun d member =>
          (CharClass.has_wordParts d).trans (continues d member)⟩⟩
  | stray stray =>
      refine ⟨LexicalRule.stray, rfl, _, ?_, rfl⟩
      simpa only [CharClass.has_known, Bool.not_not] using stray

/-- No two rules match the same characters. -/
theorem eq_of_mem (matched : chars ∈ rule.language) (otherMatched : chars ∈ other.language) :
    rule = other := by
  have sameKind : rule.kind = other.kind := (obeyed matched).kind_eq (obeyed otherMatched)
  -- Only punctuation has two rules.
  have apart (lone : chars ∈ punctuation.language) (takes : chars ∈ comparison.language) :
      False := by
    obtain ⟨c, isLone, rfl⟩ := lone
    obtain ⟨d, _, same, mayTake, -⟩ := mem_oneOf_mul.1 takes
    cases same
    rw [CharClass.has_punctuation] at isLone
    rw [CharClass.has_comparisons] at mayTake
    rcases Lexeme.eq_of_mayTakeEqual mayTake with rfl | rfl | rfl | rfl <;> cases isLone
  cases rule <;> cases other <;> first
    | rfl
    | exact (apart matched otherMatched).elim
    | exact (apart otherMatched matched).elim
    | cases sameKind

end LexicalRule

/-! ## Sequences of lexemes -/

/-- The lexeme is the longest prefix of the text that any of the rules matches, and only one of
them, which is for its kind, matches it. -/
structure TakesLongest (text : List Char) (lexeme : Lexeme) : Prop where
  nonempty : lexeme.chars ≠ []
  isPrefix : lexeme.chars <+: text
  matched : ∃ rule : LexicalRule, lexeme.chars ∈ rule.language ∧ rule.kind = lexeme.kind ∧
    ∀ other : LexicalRule, lexeme.chars ∈ other.language → other = rule
  longest : ∀ (rule : LexicalRule) (chars : List Char), chars ∈ rule.language → chars <+: text →
    chars.length ≤ lexeme.chars.length

/-- The text is cut into lexemes by the longest match, again and again. -/
inductive CutByLongestMatch : List Char → List Lexeme → Prop where
  | done : CutByLongestMatch [] []
  | take {text after : List Char} {lexeme : Lexeme} {lexemes : List Lexeme}
      (takes : TakesLongest text lexeme) (split : text = lexeme.chars ++ after)
      (rest : CutByLongestMatch after lexemes) : CutByLongestMatch text (lexeme :: lexemes)

/-- The text is cut into lexemes in one pass. -/
inductive CutInOnePass : List Char → List Lexeme → Prop where
  | done : CutInOnePass [] []
  | take {text after : List Char} {lexeme : Lexeme} {lexemes : List Lexeme}
      (taken : lexeme.Taken after) (split : text = lexeme.chars ++ after)
      (rest : CutInOnePass after lexemes) : CutInOnePass text (lexeme :: lexemes)

/-- What is found first is the longest match. -/
theorem takesLongest_first {kind : LexemeKind} {c : Char} {more after : List Char}
    (found : Lexeme.first c (more ++ after) = ⟨kind, c :: more⟩) :
    TakesLongest (c :: more ++ after) ⟨kind, c :: more⟩ where
  nonempty := List.cons_ne_nil _ _
  isPrefix := List.prefix_append _ _
  matched := by
    obtain ⟨rule, isKind, matched⟩ := LexicalRule.exists_of_obeyed (Lexeme.rule_of_first found)
    exact ⟨rule, matched, isKind, fun other otherMatched =>
      LexicalRule.eq_of_mem otherMatched matched⟩
  longest rule chars matched isPrefix := by
    have obeys := LexicalRule.obeyed matched
    obtain ⟨d, rest, rfl⟩ := List.exists_cons_of_ne_nil obeys.chars_ne_nil
    obtain ⟨following, whole⟩ := isPrefix
    obtain ⟨rfl, same⟩ := List.cons.inj whole
    have least := obeys.length_le following
    have sameRest : rest ++ following = more ++ after := same
    rwa [sameRest, found] at least

/-- There is at most one longest match. -/
theorem TakesLongest.unique {text : List Char} {lexeme other : Lexeme}
    (takes : TakesLongest text lexeme) (otherTakes : TakesLongest text other) : lexeme = other := by
  obtain ⟨rule, matched, isKind, only⟩ := takes.matched
  obtain ⟨otherRule, otherMatched, isOtherKind, -⟩ := otherTakes.matched
  have length : lexeme.chars.length = other.chars.length :=
    Nat.le_antisymm (otherTakes.longest rule _ matched takes.isPrefix)
      (takes.longest otherRule _ otherMatched otherTakes.isPrefix)
  have chars : lexeme.chars = other.chars :=
    (List.prefix_of_prefix_length_le takes.isPrefix otherTakes.isPrefix length.le).eq_of_length
      length
  have sameRule : otherRule = rule := only otherRule (chars ▸ otherMatched)
  obtain ⟨kind, chars⟩ := lexeme
  cases other
  simp_all

theorem CutByLongestMatch.unique {text : List Char} {lexemes others : List Lexeme}
    (cut : CutByLongestMatch text lexemes) (otherCut : CutByLongestMatch text others) :
    lexemes = others := by
  induction cut generalizing others with
  | done =>
      cases otherCut with
      | done => rfl
      | take takes split _ => exact absurd (List.append_eq_nil_iff.1 split.symm).1 takes.nonempty
  | take takes split _ induction =>
      cases otherCut with
      | done => exact absurd (List.append_eq_nil_iff.1 split.symm).1 takes.nonempty
      | take otherTakes otherSplit otherRest =>
          cases takes.unique otherTakes
          rw [split, List.append_cancel_left_eq] at otherSplit
          subst otherSplit
          rw [induction otherRest]

/-- What one pass finds is found first again and again. -/
theorem CutInOnePass.eq_all {text : List Char} {lexemes : List Lexeme}
    (cut : CutInOnePass text lexemes) : lexemes = Lexeme.all text := by
  induction cut with
  | done => simp [Lexeme.all]
  | @take _ after lexeme _ taken split _ induction =>
      obtain ⟨kind, chars⟩ := lexeme
      obtain ⟨c, more, rfl⟩ := List.exists_cons_of_ne_nil taken.rule.chars_ne_nil
      rw [split, List.cons_append, Lexeme.all, taken.first_eq, List.tail_cons, List.drop_left,
        induction]

theorem cut_of_sequence {lexemes : List Lexeme} (sequence : Lexeme.Sequence lexemes) :
    CutByLongestMatch (lexemes.flatMap Lexeme.chars) lexemes ∧
      CutInOnePass (lexemes.flatMap Lexeme.chars) lexemes := by
  induction sequence with
  | nil => exact ⟨.done, .done⟩
  | cons found _ induction =>
      exact ⟨.take (takesLongest_first found) rfl induction.1,
        .take (Lexeme.taken_of_first found) rfl induction.2⟩

/-- A word is a keyword if it is one as a whole, and else it is an identifier. -/
theorem tokenKind?_word {lexeme : Lexeme} (isWord : lexeme.kind = .word) :
    (∃ keyword, (String.ofList lexeme.chars, keyword) ∈ TokenKind.keywords ∧
        PlacedLexeme.tokenKind? lexeme = some keyword) ∨
      ((∀ keyword, (String.ofList lexeme.chars, keyword) ∉ TokenKind.keywords) ∧
        PlacedLexeme.tokenKind? lexeme = some .identifier) := by
  have isKind : PlacedLexeme.tokenKind? lexeme =
      some (TokenKind.ofWord (String.ofList lexeme.chars)) := by
    rw [PlacedLexeme.tokenKind?, isWord]
  rw [isKind, TokenKind.ofWord]
  cases found : TokenKind.keywords.lookup (String.ofList lexeme.chars) with
  | none =>
      right
      refine ⟨fun keyword member => ?_, rfl⟩
      simpa using List.lookup_eq_none_iff.1 found _ member
  | some keyword =>
      left
      obtain ⟨before, later, split, -⟩ := List.lookup_eq_some_iff.1 found
      exact ⟨keyword, by simp [split], rfl⟩

/-- Scanning is unambiguous longest match.  However a text is cut at the longest match of nine
rules, it is cut into the lexemes that are placed in it, wherever one begins some rule matches, and
just one rule matches the longest prefix that any of them does.  One pass over the text, which
tells from one or two characters where a lexeme ends, cuts it into the same lexemes.  Words are
keywords or identifiers as a whole. -/
theorem scanning_is_longest_match (text : String) :
    let lexemes := (placedLexemes text.toList).map PlacedLexeme.toLexeme
    (∀ cut, CutByLongestMatch text.toList cut ↔ cut = lexemes) ∧
      (∀ cut, CutInOnePass text.toList cut ↔ cut = lexemes) ∧
      ∀ lexeme ∈ lexemes, lexeme.kind = .word →
        (∃ keyword, (String.ofList lexeme.chars, keyword) ∈ TokenKind.keywords ∧
            PlacedLexeme.tokenKind? lexeme = some keyword) ∨
          ((∀ keyword, (String.ofList lexeme.chars, keyword) ∉ TokenKind.keywords) ∧
            PlacedLexeme.tokenKind? lexeme = some .identifier) := by
  intro lexemes
  have isAll : lexemes = Lexeme.all text.toList := PlacedLexeme.map_toLexeme_place _ _
  have cuts := cut_of_sequence (Lexeme.sequence_all text.toList)
  rw [Lexeme.flatMap_chars_all] at cuts
  rw [isAll]
  refine ⟨fun cut => ⟨fun isCut => isCut.unique cuts.1, ?_⟩,
    fun cut => ⟨CutInOnePass.eq_all, ?_⟩, fun lexeme _ => tokenKind?_word⟩
  · rintro rfl
    exact cuts.1
  · rintro rfl
    exact cuts.2

/-- A word that only begins like a keyword, an operator of two characters, a number that leaves the
point after it alone, and a comment. -/
theorem scanning_is_longest_match_everyKind :
    let lexemes : List Lexeme :=
      [⟨.word, ['a', 'n', 'd', '1']⟩, ⟨.punctuation, ['<', '=']⟩, ⟨.number, ['2']⟩,
        ⟨.punctuation, ['.']⟩, ⟨.comment, ['/', '/', '"']⟩]
    CutByLongestMatch "and1<=2.//\"".toList lexemes ∧ CutInOnePass "and1<=2.//\"".toList lexemes ∧
      PlacedLexeme.tokenKind? ⟨.word, ['a', 'n', 'd', '1']⟩ = some .identifier := by
  intro lexemes
  have placed : (placedLexemes "and1<=2.//\"".toList).map PlacedLexeme.toLexeme = lexemes := by
    decide +kernel
  obtain ⟨longest, onePass, words⟩ := scanning_is_longest_match "and1<=2.//\""
  have word := words ⟨.word, ['a', 'n', 'd', '1']⟩ (placed ▸ List.mem_cons_self) rfl
  refine ⟨(longest _).2 placed.symm, (onePass _).2 placed.symm, ?_⟩
  rcases word with ⟨keyword, isKeyword, -⟩ | ⟨-, isName⟩
  · simp [TokenKind.keywords] at isKeyword
  · exact isName

end LoxLang
