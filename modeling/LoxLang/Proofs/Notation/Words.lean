import LoxLang.Proofs.Notation.Reading
import LoxLang.Proofs.TreeLiterals

/-!
# Words read back

The word that stands for a literal is read back as the literal, unless the literal is a text or a
number that is not finite.  The lexeme of a name, a keyword or an operator tells the token, apart
from its mark.  All these words, and those with which lists begin, can be told from what stands
around them.
-/

namespace LoxLang

open NestedList (IsSolid Solid Reading readEach exprWith operationWith stmtWith)

/-! ## Numbers -/

/-- Whether the text of a literal tells the literal: it is neither a text nor a number that is not
finite. -/
def Literal.Plain : Literal → Prop
  | .text _ => False
  | .number value => value.isFinite = true
  | .nil | .bool _ => True

section Numbers

variable {x : Float} (finite : x.isFinite = true)

include finite

/-- A printed number begins with a minus sign or a digit. -/
theorem Decimal.number_begins : ∃ c rest, Layout.printed.number x = c :: rest ∧
    Lexeme.startsWord c = false := by
  rw [Decimal.number_eq Layout.printed finite, Decimal.signOf]
  split
  · exact ⟨'-', _, rfl, rfl⟩
  · obtain ⟨c, rest, begins, isDigit⟩ := Decimal.decimal_begins Layout.printed
      (Decimal.decimalOf (Decimal.patternOf x))
    refine ⟨c, rest, by rw [begins, List.nil_append], ?_⟩
    exact Lexeme.not_of_disjoint (fun _ => Lexeme.isDigit_of_startsWord) isDigit

theorem Decimal.readNumber_number : Decimal.readNumber (Layout.printed.number x) = x := by
  have below := (Decimal.isFinite_iff x).1 finite
  rw [Decimal.number_eq Layout.printed finite, Decimal.signOf]
  cases signed : Decimal.isSigned x with
  | true =>
      rw [if_pos rfl, List.singleton_append, Decimal.readNumber, Decimal.toFloat_ofNumeral below,
        Decimal.neg_ofBits_patternOf finite signed]
  | false =>
      obtain ⟨c, rest, begins, isDigit⟩ := Decimal.decimal_begins Layout.printed
        (Decimal.decimalOf (Decimal.patternOf x))
      have unsigned : Decimal.readNumber (c :: rest) = (Decimal.ofNumeral (c :: rest)).toFloat := by
        rw [Decimal.readNumber]
        rintro _ ⟨rfl, -⟩
        cases isDigit
      rw [if_neg (by decide), List.nil_append, begins, unsigned, ← begins,
        Decimal.toFloat_ofNumeral below, Decimal.ofBits_patternOf signed]

theorem Decimal.isSolid_number : IsSolid (String.ofList (Layout.printed.number x)) := by
  obtain ⟨c, rest, begins, -⟩ := Decimal.number_begins finite
  have plain := Decimal.plainNumeral_decimal
    (Decimal.decimalOf_last ((Decimal.isFinite_iff x).1 finite))
  refine .of_class (fun c => Lexeme.isDigit c || c == '.' || c == '-') ?_ ?_ (by decide)
  · simp [begins]
  · intro c member
    rw [String.toList_ofList, Decimal.number_eq Layout.printed finite, Decimal.signOf] at member
    rcases List.mem_append.1 member with sign | numeral
    · split at sign
      · simp_all
      · cases sign
    · rcases plain.isDigit_or numeral with digit | point
      · simp [digit]
      · simp [point]

end Numbers

/-! ## Words -/

/-- A literal whose text tells it is read back. -/
theorem Literal.ofWord_shown {value : Literal} (plain : value.Plain) :
    Expr.ofWord value.shown = .literal value := by
  cases value with
  | nil => rfl
  | bool value => cases value <;> rfl
  | number value =>
      obtain ⟨c, rest, begins, notWord⟩ := Decimal.number_begins plain
      have isNumber : (Layout.printed.number value).head?.any Lexeme.startsWord = false := by
        rw [begins]
        exact notWord
      simp [Literal.shown, Expr.ofWord, isNumber, Decimal.readNumber_number plain]
  | text value => exact plain.elim

theorem Literal.isSolid_shown {value : Literal} (plain : value.Plain) : IsSolid value.shown := by
  cases value with
  | nil => simp [shown, NestedList.isSolid_iff, NestedList.isDelimiter]
  | bool value => cases value <;> simp [shown, NestedList.isSolid_iff, NestedList.isDelimiter]
  | number value => exact Decimal.isSolid_number plain
  | text value => exact plain.elim

/-- The lexeme of an identifier is read back as a variable. -/
theorem Token.Spelled.ofWord_identifier {name : Token} (spelled : name.Spelled)
    (isName : name.kind = .identifier) :
    Expr.ofWord name.lexeme = .variable name.unmarked () := by
  have notNumber : name.kind ≠ .number := by simp [isName]
  have notText : name.kind ≠ .string := by simp [isName]
  obtain ⟨c, more, begins, starts, -⟩ := spelled.isWord isName
  have isWord : name.lexeme.toList.head?.any Lexeme.startsWord = true := by
    rw [begins]
    exact starts
  -- A keyword is of another kind, so it is not how a name is spelled.
  have other (word : String) (isOther : TokenKind.ofSpelling word ≠ .identifier) :
      name.lexeme ≠ word := by
    intro same
    rw [← same, spelled.ofSpelling_eq notNumber notText] at isOther
    exact isOther isName
  rw [Expr.ofWord, if_pos isWord, if_neg (other _ (by decide +kernel)),
    if_neg (other _ (by decide +kernel)), if_neg (other _ (by decide +kernel)),
    if_neg (other _ (by decide +kernel)), spelled.unmarked_eq notNumber notText]

/-- No punctuation but the parentheses holds a delimiter. -/
theorem TokenKind.undivided_of_ofPunctuation {chars : List Char} {kind : TokenKind}
    (found : ofPunctuation chars = some kind) (notLeft : kind ≠ .leftParen)
    (notRight : kind ≠ .rightParen) :
    chars ≠ [] ∧ ∀ c ∈ chars, NestedList.isDelimiter c = false := by
  have each : ∀ entry ∈ punctuation, entry.2 ≠ .leftParen → entry.2 ≠ .rightParen →
      entry.1 ≠ [] ∧ ∀ c ∈ entry.1, NestedList.isDelimiter c = false := by
    simp [punctuation, NestedList.isDelimiter]
  exact each _ (mem_punctuation found) notLeft notRight

theorem Token.Spelled.isSolid {token : Token} (spelled : token.Spelled)
    (kinds : token.kind ∉ [TokenKind.number, .string, .leftParen, .rightParen]) :
    IsSolid token.lexeme := by
  simp only [List.mem_cons, List.not_mem_nil, or_false, not_or] at kinds
  obtain ⟨notNumber, notText, notLeft, notRight⟩ := kinds
  rcases spelled.cases notNumber notText with punctuation | ⟨isWord, -⟩
  · exact NestedList.isSolid_iff.2
      (TokenKind.undivided_of_ofPunctuation punctuation notLeft notRight)
  · obtain ⟨c, more, begins, starts, continues⟩ := isWord
    refine .of_class Lexeme.continuesWord (begins ▸ List.cons_ne_nil _ _) ?_ (by decide)
    rw [begins]
    exact List.forall_mem_cons.2 ⟨by rw [Lexeme.continuesWord, starts, Bool.true_or], continues⟩

/-- The operators of expressions. -/
def TokenKind.operators : List TokenKind :=
  [.bang, .minus, .plus, .slash, .star, .bangEqual, .equalEqual, .greater, .greaterEqual, .less,
    .lessEqual, .kwAnd, .kwOr]

/-- No operator is spelled like another word with which a list may begin. -/
theorem NestedList.exprWith_operator {op : String}
    (isOperator : TokenKind.ofSpelling op ∈ TokenKind.operators) (items : List Reading) :
    exprWith op items = operationWith op items := by
  have other (word : String) (isOther : TokenKind.ofSpelling word ∉ TokenKind.operators) :
      op ≠ word := by
    rintro rfl
    exact isOther isOperator
  unfold exprWith
  rw [if_neg (other _ (by decide +kernel)), if_neg (other _ (by decide +kernel)),
    if_neg (other _ (by decide +kernel)), if_neg (other _ (by decide +kernel)),
    if_neg (other _ (by decide +kernel))]

/-! ## Items -/

namespace NestedList

/-- If each of several items is read back, so are all of them. -/
theorem mapM_readEach {α β : Type} {parts : List α} {nested : α → NestedList}
    {field : Reading → Option β} {onPart : α → β}
    (each : ∀ part ∈ parts, field (nested part).read = some (onPart part)) :
    (readEach (parts.map nested)).mapM field = some (parts.map onPart) := by
  induction parts with
  | nil => rfl
  | cons first rest induction =>
      obtain ⟨firstBack, restBack⟩ := List.forall_mem_cons.1 each
      simp [readEach, firstBack, induction restBack]

@[simp]
theorem read_expr_list (head : String) (items : List NestedList) :
    (list (.word head :: items)).read.expr = exprWith head (readEach items) := rfl

@[simp]
theorem read_stmt_list (head : String) (items : List NestedList) :
    (list (.word head :: items)).read.stmt = stmtWith head (readEach items) := rfl

@[simp]
theorem read_word (text : String) : (word text).read.word = some text := rfl

theorem Solid.of_word {head : String} {items : List NestedList} (headSolid : IsSolid head)
    (each : ∀ item ∈ items, Solid item) : Solid (.list (.word head :: items)) :=
  .list (List.forall_mem_cons.2 ⟨.word headSolid, each⟩)

/-- The words, operators aside, with which lists begin, and the sign in front of a superclass. -/
def heads : List String :=
  ["group", "call", "super", ".", "=", ";", "print", "var", "block", "if", "while", "fun", "return",
    "class", "<"]

theorem isSolid_of_head {head : String} (among : head ∈ heads) : IsSolid head := by
  have each : ∀ head ∈ heads, IsSolid head := by simp [heads, isSolid_iff, isDelimiter]
  exact each head among

theorem Solid.of_head {head : String} {items : List NestedList} (among : head ∈ heads)
    (each : ∀ item ∈ items, Solid item) : Solid (.list (.word head :: items)) :=
  .of_word (isSolid_of_head among) each

end NestedList

/-! ## Tokens -/

theorem TokenKind.not_keyword_of_ofPunctuation {chars : List Char} {kind : TokenKind}
    (found : ofPunctuation chars = some kind) (word : String) : (word, kind) ∉ keywords := by
  have apart : ∀ entry ∈ punctuation, ∀ other ∈ keywords, entry.2 ≠ other.2 := by decide
  exact fun member => apart _ (mem_punctuation found) _ member rfl

theorem TokenKind.eq_rightParen {chars : List Char}
    (found : ofPunctuation chars = some .rightParen) : chars = [')'] := by
  have each : ∀ entry ∈ punctuation, entry.2 = .rightParen → entry.1 = [')'] := by decide
  exact each _ (mem_punctuation found) rfl

/-- The lexeme of the token tells the token, apart from its mark. -/
structure Token.IsTold (token : Token) : Prop where
  solid : IsSolid token.lexeme
  told : Token.ofSpelling token.lexeme = token.unmarked

theorem Token.IsTold.kind_eq {token : Token} (isTold : token.IsTold) :
    TokenKind.ofSpelling token.lexeme = token.kind :=
  congrArg Token.kind isTold.told

namespace Token.Spelled

variable {token : Token}

theorem isTold (spelled : token.Spelled)
    (kinds : token.kind ∉ [TokenKind.number, .string, .leftParen, .rightParen]) : token.IsTold := by
  have solid := spelled.isSolid kinds
  simp only [List.mem_cons, List.not_mem_nil, or_false, not_or] at kinds
  exact ⟨solid, (spelled.unmarked_eq kinds.1 kinds.2.1).symm⟩

theorem isTold_name (spelled : token.Spelled) (isName : token.kind = .identifier) :
    token.IsTold :=
  spelled.isTold (by simp [isName])

theorem isTold_operator (spelled : token.Spelled) (isOperator : token.kind ∈ TokenKind.operators) :
    token.IsTold := by
  refine spelled.isTold fun other => ?_
  revert isOperator other
  generalize token.kind = kind
  revert kind
  decide

/-- A keyword is always spelled the same. -/
theorem lexeme_keyword {word : String} (spelled : token.Spelled)
    (known : (word, token.kind) ∈ TokenKind.keywords) : token.lexeme = word := by
  have isKeyword : ∀ entry ∈ TokenKind.keywords, entry.2 ≠ .number ∧ entry.2 ≠ .string ∧
      entry.2 ≠ .identifier := by decide
  have oneSpelling : ∀ entry ∈ TokenKind.keywords, ∀ other ∈ TokenKind.keywords,
      entry.2 = other.2 → entry.1 = other.1 := by decide
  obtain ⟨notNumber, notText, notName⟩ := isKeyword _ known
  rcases spelled.cases notNumber notText with punctuation | ⟨-, isWord⟩
  · exact absurd known (TokenKind.not_keyword_of_ofPunctuation punctuation word)
  · exact oneSpelling _ (TokenKind.mem_keywords isWord notName) _ known rfl

/-- So its token is told even where its lexeme is not shown. -/
theorem ofSpelling_keyword {word : String} (spelled : token.Spelled)
    (known : (word, token.kind) ∈ TokenKind.keywords) : Token.ofSpelling word = token.unmarked := by
  have notValue : ∀ entry ∈ TokenKind.keywords, entry.2 ≠ .number ∧ entry.2 ≠ .string := by decide
  obtain ⟨notNumber, notText⟩ := notValue _ known
  rw [spelled.unmarked_eq notNumber notText, spelled.lexeme_keyword known]

theorem ofSpelling_rightParen (spelled : token.Spelled) (closing : token.kind = .rightParen) :
    Token.ofSpelling ")" = token.unmarked := by
  have notNumber : token.kind ≠ .number := by simp [closing]
  have notText : token.kind ≠ .string := by simp [closing]
  rw [spelled.unmarked_eq notNumber notText]
  rcases spelled.cases notNumber notText with punctuation | ⟨-, isWord⟩
  · rw [closing] at punctuation
    have lexeme : token.lexeme.toList = ")".toList := TokenKind.eq_rightParen punctuation
    rw [String.toList_inj.1 lexeme]
  · have member := TokenKind.mem_keywords isWord (by simp [closing])
    rw [closing] at member
    simp [TokenKind.keywords] at member

end Token.Spelled

end LoxLang
