import LoxLang.Parser.Statement

/-!
# From tokens to statements

`parseWithin` reads tokens into statements that nest at most so deep;
`parse` allows as much nesting as there are tokens, which is always enough.
-/

namespace LoxLang

/-- What the parser makes of tokens: the statements, or none if they nest too deep, and the
complaints in the order in which they were made. -/
structure Parse where
  statements : Option (List (Stmt Unit))
  complaints : List Complaint

namespace Parse

/-- The issues of a text that ends at the given mark. -/
def issues (result : Parse) (stop : Mark) : List Issue :=
  result.complaints.map (Complaint.toIssue stop)

end Parse

/-- Read tokens into statements that nest at most `depth` levels deep. -/
def parseWithin (depth : Nat) (tokens : List Token) : Parse :=
  match Parser.programAt depth ⟨tokens, []⟩ with
  | .ok statements cursor => ⟨some statements, cursor.complaints.reverse⟩
  | .error _ cursor => ⟨none, cursor.complaints.reverse⟩

/-- Read tokens into statements.  A token opens at most two levels of nesting, and four levels
lead from a declaration to what stands by itself, so the depth allowed here is enough. -/
def parse (tokens : List Token) : Parse :=
  parseWithin (2 * tokens.length + 4) tokens

end LoxLang
