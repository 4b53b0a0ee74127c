import LoxLang.Proofs.Decimal.Printing
import LoxLang.Proofs.Lexicon.LongestMatch
import LoxLang.Proofs.Session.Acceptance
import LoxLang.Session

/-!
# Printed numbers read back

The text that a program prints for a finite number is an expression of the language, and its value
is the number, down to the last bit.
-/

namespace LoxLang

open Decimal (PlainNumeral isSigned patternOf decimalOf signOf infinityPattern)

/-- The numeral in the printed text of a finite number. -/
def numeralOf (x : Float) : List Char := Layout.printed.decimal (decimalOf (patternOf x))

theorem toList_semicolon (chars : List Char) :
    (String.ofList chars ++ ";").toList = chars ++ [';'] := by simp

section Printed

variable {x : Float} (finite : x.isFinite = true)

include finite

theorem plainNumeral_numeralOf : PlainNumeral (numeralOf x) :=
  Decimal.plainNumeral_decimal (Decimal.decimalOf_last ((Decimal.isFinite_iff x).1 finite))

theorem printed_eq : Layout.printed.number x = signOf x ++ numeralOf x :=
  Decimal.number_eq Layout.printed finite

/-! ## Lexemes and tokens -/

/-- The printed text is cut into the sign and the numeral. -/
theorem cutInOnePass_printed {after : List Char} {lexemes : List Lexeme}
    (ends : Lexeme.Stops Lexeme.isDigit after) (noPoint : after.head? ≠ some '.')
    (rest : CutInOnePass after lexemes) :
    CutInOnePass (Layout.printed.number x ++ after)
      ((if isSigned x then [⟨.punctuation, ['-']⟩] else []) ++
        ⟨.number, numeralOf x⟩ :: lexemes) := by
  have numeral : CutInOnePass (numeralOf x ++ after) (⟨.number, numeralOf x⟩ :: lexemes) :=
    .take ((plainNumeral_numeralOf finite).taken ends noPoint) rfl rest
  rw [printed_eq finite, signOf, List.append_assoc]
  split
  · exact .take (.lone rfl fun slash => absurd slash.1 (by decide)) rfl numeral
  · exact numeral

/-- The lexemes of the printed text, which are the sign, if there is one, and the numeral. -/
theorem all_printed : Lexeme.all (Layout.printed.number x) =
    (if isSigned x then [⟨.punctuation, ['-']⟩] else []) ++ [⟨.number, numeralOf x⟩] := by
  have nothing : Lexeme.Stops Lexeme.isDigit [] := by simp [Lexeme.Stops]
  have cut := cutInOnePass_printed finite nothing (by simp) .done
  rw [List.append_nil] at cut
  exact cut.eq_all.symm

theorem all_printed_semicolon : Lexeme.all (Layout.printed.number x ++ [';']) =
    (if isSigned x then [⟨.punctuation, ['-']⟩] else []) ++
      [⟨.number, numeralOf x⟩, ⟨.punctuation, [';']⟩] := by
  have semicolon : CutInOnePass [';'] [⟨.punctuation, [';']⟩] :=
    .take (.lone rfl (by decide)) rfl .done
  have stops : Lexeme.Stops Lexeme.isDigit [';'] := by
    rintro d ⟨⟩
    rfl
  exact (cutInOnePass_printed finite stops (by decide) semicolon).eq_all.symm

/-- The kinds and lexemes of the tokens of the printed text. -/
theorem tokens_printed :
    (TokenStream.ofText (String.ofList (Layout.printed.number x))).tokens.map
        (fun token => (token.kind, token.lexeme)) =
      (if isSigned x then [(.minus, "-")] else []) ++ [(.number, String.ofList (numeralOf x))] := by
  simp only [TokenStream.ofText, placedLexemes, String.toList_ofList, all_printed finite]
  split <;> rfl

theorem issuesOf_printed :
    TokenStream.issuesOf (String.ofList (Layout.printed.number x)) = [] := by
  simp only [TokenStream.issuesOf, placedLexemes, String.toList_ofList, all_printed finite]
  split <;> rfl

theorem issuesOf_printed_semicolon :
    TokenStream.issuesOf (String.ofList (Layout.printed.number x) ++ ";") = [] := by
  simp only [TokenStream.issuesOf, placedLexemes, toList_semicolon,
    all_printed_semicolon finite]
  split <;> rfl

/-- The tokens of the printed text with a semicolon after it. -/
theorem tokens_printed_semicolon :
    ∃ sign number semicolon : Mark,
      (TokenStream.ofText (String.ofList (Layout.printed.number x) ++ ";")).tokens =
        (if isSigned x then [⟨sign, .minus, "-"⟩] else []) ++
          [⟨number, .number, String.ofList (numeralOf x)⟩, ⟨semicolon, .semicolon, ";"⟩] := by
  simp only [TokenStream.ofText, placedLexemes, toList_semicolon, all_printed_semicolon finite]
  split
  · exact ⟨_, _, _, rfl⟩
  · exact ⟨default, _, _, rfl⟩

end Printed

/-! ## Evaluation -/

/-- The limits of a host leave room for a numeral with a sign. -/
structure Host.Roomy (host : Host) : Prop where
  nesting : 5 ≤ host.nesting
  scopeRoom : 3 ≤ host.scopeRoom
  room : 2 ≤ host.room

theorem Host.roomy_standard (clock : Nat → Float) : (Host.standard clock).Roomy where
  nesting := by simp [Host.standard]
  scopeRoom := by simp [Host.standard]
  room := by simp [Host.standard]

/-- The expression that the printed text of a number is. -/
def printedExpr {S : Type} (sign : Mark) (x : Float) : Expr S :=
  let magnitude := .literal (.number (Float.ofBits (patternOf x).toUInt64))
  if isSigned x then .unary ⟨sign, .minus, "-"⟩ magnitude else magnitude

theorem parseWithin_printed {x : Float} (finite : x.isFinite = true) (depth : Nat) :
    ∃ sign, parseWithin (depth + 5)
        (TokenStream.ofText (String.ofList (Layout.printed.number x) ++ ";")).tokens =
      ⟨some [.expression (printedExpr sign x)], []⟩ := by
  have read : (Decimal.ofNumeral (String.ofList (numeralOf x)).toList).toFloat =
      Float.ofBits (patternOf x).toUInt64 := by
    rw [String.toList_ofList]
    exact Decimal.toFloat_ofNumeral ((Decimal.isFinite_iff x).1 finite)
  obtain ⟨sign, number, semicolon, tokens⟩ := tokens_printed_semicolon finite
  refine ⟨sign, ?_⟩
  rw [tokens, printedExpr, ← read]
  split <;> rfl

/-- The printed text is accepted as the statement that evaluates it. -/
theorem accepted_printed {x : Float} (finite : x.isFinite = true) {host : Host}
    (roomy : host.Roomy) :
    ∃ sign, Accepted host (String.ofList (Layout.printed.number x) ++ ";")
      [.expression (printedExpr sign x)] [.expression (printedExpr sign x)] ScopeState.start := by
  obtain ⟨depth, nesting⟩ := Nat.exists_eq_add_of_le' roomy.nesting
  obtain ⟨room, scopeRoom⟩ := Nat.exists_eq_add_of_le' roomy.scopeRoom
  obtain ⟨sign, parsed⟩ := parseWithin_printed finite depth
  refine ⟨sign, ?_, ?_, ?_, rfl⟩
  · rw [nesting, parsed]
  · rw [nesting, parsed]
  · rw [scopeRoom, printedExpr, printedExpr]
    split <;> rfl

/-- The value of the expression is the number, with its sign. -/
theorem eval_printedExpr {x : Float} (finite : x.isFinite = true) {host : Host}
    (roomy : host.Roomy) (sign : Mark) (machine : Machine) :
    Run.eval host host.room (printedExpr sign x) machine = .ok (.number x) machine := by
  obtain ⟨room, spacious⟩ := Nat.exists_eq_add_of_le' roomy.room
  rw [spacious, printedExpr]
  cases signed : isSigned x with
  | true =>
      have negated := Decimal.neg_ofBits_patternOf finite signed
      show EStateM.Result.ok (Value.number (-Float.ofBits (patternOf x).toUInt64)) machine = _
      rw [negated]
  | false =>
      show EStateM.Result.ok (Value.number (Float.ofBits (patternOf x).toUInt64)) machine = _
      rw [Decimal.ofBits_patternOf signed]

theorem evaluate_printed {x : Float} (finite : x.isFinite = true) {host : Host}
    (roomy : host.Roomy) {session : Session} (healthy : session.report.sick = false) :
    (session.evaluate host (String.ofList (Layout.printed.number x))).2 = .ok (.number x) := by
  obtain ⟨sign, accepted⟩ := accepted_printed finite roomy
  have noIssues := Report.sick_eq_false_iff.1 healthy
  have checked := accepted.session_check noIssues (issuesOf_printed_semicolon finite)
  simp only [Session.evaluate, checked, Session.firstExpression,
    eval_printedExpr finite roomy sign session.machine]

/-! ## What is printed -/

/-- The text says exactly which number it was printed for: it is a plain numeral, after a minus
sign if the number has the sign bit; it denotes what the number's listing denotes; its tokens are
the sign and the numeral; and its value is the number. -/
structure SaysExactly (text : String) (x : Float) : Prop where
  form : ∃ numeral, PlainNumeral numeral ∧ text.toList = signOf x ++ numeral ∧
    (TokenStream.ofText text).tokens.map (fun token => (token.kind, token.lexeme)) =
      (if isSigned x then [(.minus, "-")] else []) ++ [(.number, String.ofList numeral)]
  denotes : Decimal.denoted text.toList = Decimal.denoted (Layout.listed.number x)
  clean : TokenStream.issuesOf text = []
  evaluates : ∀ (host : Host) (session : Session), host.Roomy → session.report.sick = false →
    (session.evaluate host text).2 = .ok (.number x)

/-- What is printed for a finite number says exactly which number it is, so no other finite number
is printed in the same way. -/
theorem printed_says_exactly {x : Float} (finite : x.isFinite = true) :
    SaysExactly (Value.number x).shown x ∧
      ∀ y : Float, y.isFinite = true → (Value.number y).shown = (Value.number x).shown → y = x := by
  refine ⟨⟨⟨numeralOf x, plainNumeral_numeralOf finite, ?_, tokens_printed finite⟩, ?_,
    issuesOf_printed finite, fun host session roomy healthy =>
      evaluate_printed finite roomy healthy⟩, ?_⟩
  · exact String.toList_ofList.trans (printed_eq finite)
  · rw [Decimal.denoted_number Layout.listed finite, ← Decimal.denoted_number Layout.printed finite]
    exact congrArg Decimal.denoted String.toList_ofList
  · intro y otherFinite same
    have roomy := Host.roomy_standard (fun _ => 0)
    have healthy : (Session.fresh false).report.sick = false := rfl
    have value := evaluate_printed finite roomy healthy
    have otherValue := evaluate_printed otherFinite roomy healthy
    have sameText : String.ofList (Layout.printed.number y) =
        String.ofList (Layout.printed.number x) := same
    rw [sameText, value] at otherValue
    cases otherValue
    rfl

theorem printed_says_exactly_negative :
    (Float.ofBits 0xC44B1AE4D6E2EF50).isFinite = true ∧
      SaysExactly "-1000000000000000000000" (Float.ofBits 0xC44B1AE4D6E2EF50) := by
  have finite : (Float.ofBits 0xC44B1AE4D6E2EF50).isFinite = true := by decide +kernel
  have text : (Value.number (Float.ofBits 0xC44B1AE4D6E2EF50)).shown =
      "-1000000000000000000000" := by decide +kernel
  exact ⟨finite, text ▸ (printed_says_exactly finite).1⟩

end LoxLang
