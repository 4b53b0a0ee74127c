import LoxLang.Proofs.Parser.Depth
import LoxLang.Proofs.Parser.StatementReading

/-!
# The parser reads exactly what is written

If the parser has nothing to complain about, then its trees obey the grammar, no
statement is lost in them, and written out in source order they are the tokens
that were read.  Only a loop with `for` is written out differently, as the loop it
stands for.
-/

namespace LoxLang

/-- The trees that are read without complaint, whatever the depth that is allowed. -/
theorem parseWithin_listReadFrom {depth : Nat} {tokens : List Token} {trees : List (Stmt Unit)}
    (read : (parseWithin depth tokens).statements = some trees)
    (quiet : (parseWithin depth tokens).complaints = []) : Stmt.ListReadFrom tokens trees := by
  have parsed : parseWithin depth tokens = ⟨some trees, []⟩ := by rw [← read, ← quiet]
  exact ((Parser.ReadsStatement.programAt depth).ofParse parsed).2

/-- The trees obey the grammar of precedence and of positions, none of their parts is lost, and
written out in source order they say what the tokens say. -/
theorem parse_reads_exactly (tokens : List Token) (stop : Mark)
    (quiet : (parse tokens).issues stop = []) :
    ∃ trees, (parse tokens).statements = some trees ∧
      (∀ tree ∈ trees, tree.isWhole = true) ∧
      (∀ tree ∈ trees, tree.Grammatical .list) ∧
      (WithoutFor tokens → Stmt.writtenAll trees = tokens.map Token.spelling) := by
  obtain ⟨trees, read⟩ := Option.isSome_iff_exists.1 (parse_statements_isSome tokens)
  have noComplaint : (parse tokens).complaints = [] := List.map_eq_nil_iff.1 quiet
  have listRead := parseWithin_listReadFrom read noComplaint
  refine ⟨trees, read, ?_, listRead.grammatical, listRead.written⟩
  intro tree member
  exact (listRead.grammatical tree member).isWhole

/-- The tokens of `if (a) if (b) c.d = e = f or 1 < -g(h, i) * j; else { fun k(l) { return; } }`,
in which the `else` belongs to the inner conditional. -/
def danglingElseTokens : List Token :=
  [⟨⟨1, 0⟩, .kwIf, "if"⟩, ⟨⟨1, 3⟩, .leftParen, "("⟩, ⟨⟨1, 4⟩, .identifier, "a"⟩,
   ⟨⟨1, 5⟩, .rightParen, ")"⟩, ⟨⟨1, 7⟩, .kwIf, "if"⟩, ⟨⟨1, 10⟩, .leftParen, "("⟩,
   ⟨⟨1, 11⟩, .identifier, "b"⟩, ⟨⟨1, 12⟩, .rightParen, ")"⟩, ⟨⟨1, 14⟩, .identifier, "c"⟩,
   ⟨⟨1, 15⟩, .dot, "."⟩, ⟨⟨1, 16⟩, .identifier, "d"⟩, ⟨⟨1, 18⟩, .equal, "="⟩,
   ⟨⟨1, 20⟩, .identifier, "e"⟩, ⟨⟨1, 22⟩, .equal, "="⟩, ⟨⟨1, 24⟩, .identifier, "f"⟩,
   ⟨⟨1, 26⟩, .kwOr, "or"⟩, ⟨⟨1, 29⟩, .number, "1"⟩, ⟨⟨1, 31⟩, .less, "<"⟩,
   ⟨⟨1, 33⟩, .minus, "-"⟩, ⟨⟨1, 34⟩, .identifier, "g"⟩, ⟨⟨1, 35⟩, .leftParen, "("⟩,
   ⟨⟨1, 36⟩, .identifier, "h"⟩, ⟨⟨1, 37⟩, .comma, ","⟩, ⟨⟨1, 39⟩, .identifier, "i"⟩,
   ⟨⟨1, 40⟩, .rightParen, ")"⟩, ⟨⟨1, 42⟩, .star, "*"⟩, ⟨⟨1, 44⟩, .identifier, "j"⟩,
   ⟨⟨1, 45⟩, .semicolon, ";"⟩, ⟨⟨1, 47⟩, .kwElse, "else"⟩, ⟨⟨1, 52⟩, .leftBrace, "\x7b"⟩,
   ⟨⟨1, 54⟩, .kwFun, "fun"⟩, ⟨⟨1, 58⟩, .identifier, "k"⟩, ⟨⟨1, 59⟩, .leftParen, "("⟩,
   ⟨⟨1, 60⟩, .identifier, "l"⟩, ⟨⟨1, 61⟩, .rightParen, ")"⟩, ⟨⟨1, 63⟩, .leftBrace, "\x7b"⟩,
   ⟨⟨1, 65⟩, .kwReturn, "return"⟩, ⟨⟨1, 71⟩, .semicolon, ";"⟩, ⟨⟨1, 73⟩, .rightBrace, "\x7d"⟩,
   ⟨⟨1, 75⟩, .rightBrace, "\x7d"⟩]

theorem parse_reads_exactly_danglingElse :
    (parse danglingElseTokens).issues ⟨1, 76⟩ = [] ∧
      ∃ trees, (parse danglingElseTokens).statements = some trees ∧
        Stmt.writtenAll trees = danglingElseTokens.map Token.spelling := by
  have quiet : (parse danglingElseTokens).issues ⟨1, 76⟩ = [] := by decide +kernel
  obtain ⟨trees, read, _, _, written⟩ := parse_reads_exactly danglingElseTokens ⟨1, 76⟩ quiet
  have withoutFor : ∀ token ∈ danglingElseTokens, token.kind ≠ .kwFor := by decide
  exact ⟨quiet, trees, read, written withoutFor⟩

end LoxLang
