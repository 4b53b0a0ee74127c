import LoxLang.Parser
import LoxLang.Proofs.Parser.Attempts
import LoxLang.Proofs.Parser.ExpressionReading

/-!
# What the statement parsers read

A statement is read from tokens that say what the statement says when it is
written out, as long as no `for` is among them: such a loop is written out as what
it stands for.  If the statement ends with a conditional without `else`, then no
`else` is ahead.
-/

namespace LoxLang

/-- No loop with `for` begins among the tokens. -/
def WithoutFor (tokens : List Token) : Prop := ∀ token ∈ tokens, token.kind ≠ .kwFor

namespace WithoutFor

theorem append {left right : List Token} :
    WithoutFor (left ++ right) ↔ WithoutFor left ∧ WithoutFor right :=
  List.forall_mem_append

theorem cons {token : Token} {tokens : List Token} :
    WithoutFor (token :: tokens) ↔ token.kind ≠ .kwFor ∧ WithoutFor tokens :=
  List.forall_mem_cons

end WithoutFor

/-- The statement obeys the grammar in a position, and these are the tokens that it was read from
and the tokens ahead. -/
structure Stmt.ReadFrom (position : Position) (taken rest : List Token) (s : Stmt Unit) :
    Prop where
  grammatical : s.Grammatical position
  closed : s.endsOpen = true → ∀ token ∈ rest.head?, token.kind ≠ .kwElse
  written : WithoutFor taken → s.written = taken.map Token.spelling
  tokens : ∀ token, s.tokens.count token ≤ taken.count token
  nonempty : taken ≠ []

/-- The statements obey the grammar of a list of statements, and these are the tokens that they
were read from. -/
structure Stmt.ListReadFrom (taken : List Token) (body : List (Stmt Unit)) : Prop where
  grammatical : ∀ s ∈ body, s.Grammatical .list
  written : WithoutFor taken → Stmt.writtenAll body = taken.map Token.spelling
  tokens : ∀ token, (Stmt.tokensOfAll body).count token ≤ taken.count token

/-- The function obeys the grammar, and these are the tokens that it was read from, from its name
on. -/
structure FunctionDecl.ReadFrom (taken : List Token) (decl : FunctionDecl Unit) : Prop where
  grammatical : (Stmt.function decl).Grammatical .list
  written : WithoutFor taken → decl.written = taken.map Token.spelling
  tokens : ∀ token, decl.tokens.count token ≤ taken.count token

namespace Stmt

/-- The tokens of the statements are among those that they were read from. -/
theorem ListReadFrom.tokens_subset {taken : List Token} {body : List (Stmt Unit)}
    (readFrom : ListReadFrom taken body) : tokensOfAll body ⊆ taken := by
  intro token member
  have occurs := Nat.lt_of_lt_of_le (List.count_pos_iff.2 member) (readFrom.tokens token)
  exact List.count_pos_iff.1 occurs

theorem Grammatical.forLoop {position : Position} {initializer : Option (Stmt Unit)}
    {condition increment : Option (Expr Unit)} {body : Stmt Unit}
    (initializerObeys : ∀ first ∈ initializer, first.Grammatical .list)
    (conditionObeys : ∀ value ∈ condition, value.Grammatical)
    (incrementObeys : ∀ value ∈ increment, value.Grammatical)
    (bodyObeys : body.Grammatical .branch) :
    (Stmt.forLoop initializer condition increment body).Grammatical position := by
  have conditionLayer : (condition.getD (.literal (.bool true))).Grammatical := by
    cases condition with
    | none => exact .primary .literal
    | some value => exact conditionObeys value rfl
  have repeatedObeys : (Stmt.repeated increment body).Grammatical .branch := by
    cases increment with
    | none => exact bodyObeys
    | some step =>
        refine .block fun inner member => ?_
        have either : inner = body ∨ inner = .expression step := by simpa using member
        rcases either with rfl | rfl
        · exact bodyObeys.anywhere
        · exact .expression (incrementObeys step rfl)
  have loops : ∀ position, Grammatical position (.loop _ _) :=
    fun _ => .loop conditionLayer repeatedObeys
  cases initializer with
  | none => exact loops position
  | some first =>
      refine .block fun inner member => ?_
      have either := List.mem_cons.1 member
      rcases either with rfl | last
      · exact initializerObeys _ rfl
      · rw [List.mem_singleton.1 last]
        exact loops .list

theorem endsOpen_of_forLoop {initializer : Option (Stmt Unit)}
    {condition increment : Option (Expr Unit)} {body : Stmt Unit}
    (opens : (Stmt.forLoop initializer condition increment body).endsOpen = true) :
    body.endsOpen = true := by
  cases initializer with
  | some first => simp [forLoop, endsOpen] at opens
  | none =>
      cases increment with
      | some step => simp [forLoop, repeated, endsOpen] at opens
      | none => simpa [forLoop, repeated, endsOpen] using opens

theorem count_tokens_forLoop (initializer : Option (Stmt Unit))
    (condition increment : Option (Expr Unit)) (body : Stmt Unit) (token : Token) :
    (Stmt.forLoop initializer condition increment body).tokens.count token =
      (Stmt.tokensOfAll initializer.toList).count token +
        ((Expr.tokensOfOptional condition).count token + (body.tokens.count token +
          (Expr.tokensOfOptional increment).count token)) := by
  cases initializer <;> cases condition <;> cases increment <;>
    simp [forLoop, repeated, tokens, tokensOfAll, Expr.tokensOfOptional, Expr.tokens]

end Stmt

namespace Parser

/-- The parser reads statements in a position. -/
abbrev ReadsStatement (parser : Parser (Stmt Unit)) (position : Position) : Prop :=
  Reads parser fun taken s rest => s.ReadFrom position taken rest

namespace ReadsStatement

variable {expression : Parser (Expr Unit)} {nested inner : Parser (Stmt Unit)}
  {position : Position}

-- What one kind of statement says when written out is computed from what its parts say.
attribute [local simp] Stmt.written

theorem many (innerReads : ReadsStatement inner .list) (wanted : Token → Bool) (fuel : Nat) :
    Reads (Parser.many wanted inner fuel) fun taken body rest =>
      Stmt.ListReadFrom taken body ∧ body.length ≤ taken.length ∧
        (body.length = fuel ∨ rest.head?.any wanted = false) := by
  have eachReads : Reads inner fun taken s _ => ∃ rest, Stmt.ReadFrom .list taken rest s :=
    innerReads.mono fun _ _ rest read => ⟨rest, read⟩
  refine (Reads.many wanted eachReads fuel).mono ?_
  rintro taken body rest ⟨sequence, ended⟩
  refine ⟨⟨?_, ?_, ?_⟩, ?_, ended⟩
  · exact sequence.forall_mem fun _ _ ⟨_, read⟩ => read.grammatical
  · intro withoutFor
    rw [Stmt.writtenAll_eq_flatMap]
    exact sequence.written withoutFor fun _ _ ⟨_, read⟩ => read.written
  · rw [Stmt.tokensOfAll_eq_flatMap]
    exact sequence.count_le fun _ _ ⟨_, read⟩ => read.tokens
  · exact sequence.length_le fun _ _ ⟨_, read⟩ => read.nonempty

theorem blockRest (innerReads : ReadsStatement inner .list) :
    Reads (Parser.blockRest inner) fun taken body _ =>
      ∃ bodyTaken brace, taken = bodyTaken ++ [brace] ∧ brace.kind = .rightBrace ∧
        Stmt.ListReadFrom bodyTaken body := by
  refine Reads.bind Reads.remaining fun fuel none => ?_
  refine Reads.bind (many innerReads _ fuel) fun body bodyTaken => ?_
  refine Reads.expectThen _ _ fun brace => Reads.pure ?_
  rintro rest isBrace ⟨read, _⟩ ⟨rfl, _⟩
  exact ⟨bodyTaken, brace, by simp, isBrace, read⟩

theorem functionRest (innerReads : ReadsStatement inner .list) (noun : String) :
    Reads (Parser.functionRest inner noun) fun taken decl _ => decl.ReadFrom taken := by
  have param := Reads.expect .identifier "parameter name"
  refine Reads.expectThen _ _ fun name => ?_
  refine Reads.expectThen _ _ fun opening => ?_
  refine Reads.bind (Reads.items .tooManyParameters param) fun params paramsTaken => ?_
  refine Reads.expectThen _ _ fun closing => ?_
  refine Reads.expectThen _ _ fun brace => ?_
  refine Reads.bind (blockRest innerReads) fun body blockTaken => Reads.pure ?_
  rintro rest ⟨bodyTaken, last, rfl, isLast, bodyRead⟩ isBrace isClosing ⟨separated, few⟩
    isOpening isName
  refine ⟨.function isName ?_ few bodyRead.grammatical, ?_, ?_⟩
  · exact separated.forall_mem fun _ _ ⟨_, isParam⟩ => isParam
  · intro withoutFor
    simp only [WithoutFor.cons, WithoutFor.append] at withoutFor
    obtain ⟨_, _, _, _, _, ⟨bodyWithout, _⟩, _⟩ := withoutFor
    have paramsWritten : Spelling.separated
        (params.map fun param => [.identifier param.lexeme]) = _ :=
      separated.written fun piece param ⟨same, isParam⟩ => by
        simp [same, Token.spelling_of_identifier isParam]
    simp [FunctionDecl.written, paramsWritten, bodyRead.written bodyWithout,
      Token.spelling_of_identifier isName, Token.spelling_of_kind isOpening rfl,
      Token.spelling_of_kind isClosing rfl, Token.spelling_of_kind isBrace rfl,
      Token.spelling_of_kind isLast rfl]
  · intro token
    have paramsCount : (params.flatMap fun param => [param]).count token ≤ _ :=
      separated.count_le (fun piece param ⟨same, _⟩ token => by simp [same]) token
    have bodyCount := bodyRead.tokens token
    simp only [List.flatMap_singleton'] at paramsCount
    simp only [FunctionDecl.tokens, List.count_append, List.count_cons, List.count_nil]
    omega

theorem superclass? :
    Reads Parser.superclass? fun taken superclass _ =>
      (∀ parent ∈ superclass, parent.name.kind = .identifier) ∧
        Superclass.written superclass = taken.map Token.spelling ∧
        ∀ token, (Superclass.tokens superclass).count token ≤ taken.count token := by
  refine Reads.acceptThen _ (Reads.pure fun rest _ => by simp [Superclass.written,
    Superclass.tokens]) fun less => ?_
  refine Reads.expectThen _ _ fun name => Reads.pure fun rest isName wanted => ?_
  have isLess : less.kind = .less := by simpa using wanted
  refine ⟨by simpa using isName, ?_, ?_⟩
  · simp [Superclass.written, Token.spelling_of_kind isLess rfl,
      Token.spelling_of_identifier isName]
  · intro token
    simp only [Superclass.tokens, List.count_cons, List.count_nil]
    omega

theorem methods (innerReads : ReadsStatement inner .list) (wanted : Token → Bool) (fuel : Nat) :
    Reads (Parser.many wanted (Parser.functionRest inner "method") fuel) fun taken methods _ =>
      (∀ method ∈ methods, (Stmt.function method).Grammatical .list) ∧
        (WithoutFor taken → FunctionDecl.writtenAll methods = taken.map Token.spelling) ∧
        ∀ token, (FunctionDecl.tokensOfAll methods).count token ≤ taken.count token := by
  refine (Reads.many wanted (functionRest innerReads "method") fuel).mono ?_
  rintro taken methods rest ⟨sequence, _⟩
  refine ⟨?_, ?_, ?_⟩
  · exact sequence.forall_mem fun _ _ read => read.grammatical
  · intro withoutFor
    rw [FunctionDecl.writtenAll_eq_flatMap]
    exact sequence.written withoutFor fun _ _ read => read.written
  · rw [FunctionDecl.tokensOfAll_eq_flatMap]
    exact sequence.count_le fun _ _ read => read.tokens

theorem initializer? (expressionReads : ReadsLayer expression .assignment) :
    Reads (Parser.initializer? expression) fun taken initializer _ =>
      (∀ value ∈ initializer, value.Grammatical) ∧
        Expr.writtenInitializer initializer = taken.map Token.spelling ∧
        ∀ token, (Expr.tokensOfOptional initializer).count token ≤ taken.count token := by
  refine Reads.acceptThen _ (Reads.pure fun rest _ => by simp [Expr.writtenInitializer,
    Expr.tokensOfOptional]) fun equals => ?_
  refine Reads.bind expressionReads fun value valueTaken => Reads.pure fun rest read wanted => ?_
  have isEqual : equals.kind = .equal := by simpa using wanted
  refine ⟨by simpa using read.inLayer, ?_, ?_⟩
  · simp [Expr.writtenInitializer, Token.spelling_of_kind isEqual rfl, read.written]
  · intro token
    have valueCount := read.tokens token
    simp only [Expr.tokensOfOptional, List.append_nil, List.count_cons]
    omega

theorem expressionUnless (expressionReads : ReadsLayer expression .assignment)
    (kind : TokenKind) :
    Reads (Parser.expressionUnless kind expression) fun taken value _ =>
      (∀ result ∈ value, result.Grammatical) ∧
        Expr.writtenOptional value = taken.map Token.spelling ∧
        ∀ token, (Expr.tokensOfOptional value).count token ≤ taken.count token := by
  refine Reads.bind (Reads.isAhead kind) fun ahead none => ?_
  cases ahead with
  | true =>
      refine Reads.pure ?_
      rintro rest ⟨rfl, _⟩
      simp [Expr.writtenOptional, Expr.tokensOfOptional]
  | false =>
      refine Reads.bind expressionReads fun value valueTaken => Reads.pure ?_
      rintro rest read ⟨rfl, _⟩
      refine ⟨by simpa using read.inLayer, ?_, ?_⟩
      · simp [Expr.writtenOptional, read.written]
      · simpa [Expr.tokensOfOptional] using read.tokens

variable {keyword : Token}

theorem varRest (expressionReads : ReadsLayer expression .assignment) (keyword : Token) :
    Reads (Parser.varRest expression) fun taken s rest =>
      keyword.kind = .kwVar → s.ReadFrom .list (keyword :: taken) rest := by
  refine Reads.expectThen _ _ fun name => ?_
  refine Reads.bind (initializer? expressionReads) fun initializer initializerTaken => ?_
  refine Reads.expectThen _ _ fun semicolon => Reads.pure ?_
  rintro rest isSemicolon ⟨obeys, written, tokens⟩ isName isVar
  refine ⟨.var isName obeys, by simp [Stmt.endsOpen], fun _ => ?_, fun token => ?_, by simp⟩
  · simp [written, Token.spelling_of_kind isVar rfl,
      Token.spelling_of_identifier isName, Token.spelling_of_kind isSemicolon rfl]
  · have initializerCount := tokens token
    simp only [Stmt.tokens, List.count_append, List.count_cons]
    omega

theorem classRest (innerReads : ReadsStatement inner .list) (isClass : keyword.kind = .kwClass) :
    Reads (Parser.classRest inner) fun taken s rest =>
      s.ReadFrom .list (keyword :: taken) rest := by
  refine Reads.expectThen _ _ fun name => ?_
  refine Reads.bind superclass? fun superclass parentTaken => ?_
  refine Reads.expectThen _ _ fun opening => ?_
  refine Reads.bind Reads.remaining fun fuel none => ?_
  refine Reads.bind (methods innerReads _ fuel) fun methods methodsTaken => ?_
  refine Reads.expectThen _ _ fun closing => Reads.pure ?_
  rintro rest isClosing ⟨methodsObey, methodsWritten, methodsTokens⟩ ⟨rfl, _⟩ isOpening
    ⟨parentObeys, parentWritten, parentTokens⟩ isName
  refine ⟨.class isName parentObeys methodsObey, by simp [Stmt.endsOpen], fun withoutFor => ?_,
    fun token => ?_, by simp⟩
  · simp only [WithoutFor.cons, WithoutFor.append] at withoutFor
    obtain ⟨_, _, _, _, _, methodsWithout, _⟩ := withoutFor
    simp [parentWritten, methodsWritten methodsWithout,
      Token.spelling_of_kind isClass rfl, Token.spelling_of_identifier isName,
      Token.spelling_of_kind isOpening rfl, Token.spelling_of_kind isClosing rfl]
  · have parentCount := parentTokens token
    have methodsCount := methodsTokens token
    simp only [Stmt.tokens, List.count_append, List.count_cons, List.count_nil]
    omega

theorem expressionStatement (expressionReads : ReadsLayer expression .assignment) :
    ReadsStatement (Parser.expressionStatement expression) position := by
  refine Reads.bind expressionReads fun value valueTaken => ?_
  refine Reads.expectThen _ _ fun semicolon => Reads.pure fun rest isSemicolon read => ?_
  refine ⟨.expression read.inLayer, by simp [Stmt.endsOpen], fun _ => ?_, fun token => ?_, by simp⟩
  · simp [read.written, Token.spelling_of_kind isSemicolon rfl]
  · have valueCount := read.tokens token
    simp only [Stmt.tokens, List.count_append, List.count_cons, List.count_nil]
    omega

theorem printRest (expressionReads : ReadsLayer expression .assignment)
    (isPrint : keyword.kind = .kwPrint) :
    Reads (Parser.printRest expression) fun taken s rest =>
      s.ReadFrom position (keyword :: taken) rest := by
  refine Reads.bind expressionReads fun value valueTaken => ?_
  refine Reads.expectThen _ _ fun semicolon => Reads.pure fun rest isSemicolon read => ?_
  refine ⟨.print read.inLayer, by simp [Stmt.endsOpen], fun _ => ?_, fun token => ?_, by simp⟩
  · simp [read.written, Token.spelling_of_kind isPrint rfl,
      Token.spelling_of_kind isSemicolon rfl]
  · have valueCount := read.tokens token
    simp only [Stmt.tokens, List.count_append, List.count_cons, List.count_nil]
    omega

theorem returnRest (expressionReads : ReadsLayer expression .assignment)
    (isReturn : keyword.kind = .kwReturn) :
    Reads (Parser.returnRest keyword expression) fun taken s rest =>
      s.ReadFrom position (keyword :: taken) rest := by
  refine Reads.bind (expressionUnless expressionReads .semicolon) fun value valueTaken => ?_
  refine Reads.expectThen _ _ fun semicolon => Reads.pure ?_
  rintro rest isSemicolon ⟨obeys, written, tokens⟩
  refine ⟨.return isReturn obeys, by simp [Stmt.endsOpen], fun _ => ?_, fun token => ?_, by simp⟩
  · simp [written, Token.spelling_of_kind isReturn rfl,
      Token.spelling_of_kind isSemicolon rfl]
  · have valueCount := tokens token
    simp only [Stmt.tokens, List.count_append, List.count_cons, List.count_nil]
    omega

theorem whileRest (expressionReads : ReadsLayer expression .assignment)
    (nestedReads : ReadsStatement nested .branch) (isWhile : keyword.kind = .kwWhile) :
    Reads (Parser.whileRest expression nested) fun taken s rest =>
      s.ReadFrom position (keyword :: taken) rest := by
  refine Reads.expectThen _ _ fun opening => ?_
  refine Reads.bind expressionReads fun condition conditionTaken => ?_
  refine Reads.expectThen _ _ fun closing => ?_
  refine Reads.bind nestedReads fun body bodyTaken => Reads.pure ?_
  intro rest bodyRead isClosing conditionRead isOpening
  simp only [List.nil_append, List.append_nil] at bodyRead ⊢
  refine ⟨.loop conditionRead.inLayer bodyRead.grammatical, ?_, fun withoutFor => ?_,
    fun token => ?_, by simp⟩
  · intro opens
    exact bodyRead.closed (by simpa [Stmt.endsOpen] using opens)
  · simp only [WithoutFor.cons, WithoutFor.append] at withoutFor
    obtain ⟨_, _, _, _, bodyWithout⟩ := withoutFor
    simp [conditionRead.written, bodyRead.written bodyWithout,
      Token.spelling_of_kind isWhile rfl, Token.spelling_of_kind isOpening rfl,
      Token.spelling_of_kind isClosing rfl]
  · have conditionCount := conditionRead.tokens token
    have bodyCount := bodyRead.tokens token
    simp only [Stmt.tokens, List.count_append, List.count_cons]
    omega

theorem elseBranch? (nestedReads : ReadsStatement nested .branch) :
    Reads (Parser.elseBranch? nested) fun taken elseBranch rest =>
      (elseBranch = none ∧ taken = [] ∧ ∀ token ∈ rest.head?, token.kind ≠ .kwElse) ∨
        ∃ branch otherwise branchTaken, elseBranch = some branch ∧
          taken = otherwise :: branchTaken ∧ otherwise.kind = .kwElse ∧
          branch.ReadFrom .branch branchTaken rest := by
  refine Reads.acceptThen _ (Reads.pure fun rest noElse => .inl ⟨rfl, rfl, ?_⟩)
    fun otherwise => ?_
  · simpa using noElse
  · refine Reads.bind nestedReads fun branch branchTaken => Reads.pure fun rest read wanted => ?_
    exact .inr ⟨branch, otherwise, branchTaken, rfl, by simp, by simpa using wanted, read⟩

theorem ifRest (expressionReads : ReadsLayer expression .assignment)
    (nestedReads : ReadsStatement nested .branch) (isIf : keyword.kind = .kwIf) :
    Reads (Parser.ifRest expression nested) fun taken s rest =>
      s.ReadFrom position (keyword :: taken) rest := by
  refine Reads.expectThen _ _ fun opening => ?_
  refine Reads.bind expressionReads fun condition conditionTaken => ?_
  refine Reads.expectThen _ _ fun closing => ?_
  refine Reads.bind nestedReads fun thenBranch thenTaken => ?_
  refine Reads.bind (elseBranch? nestedReads) fun elseBranch elseTaken => Reads.pure ?_
  rintro rest (⟨rfl, rfl, noElse⟩ | ⟨branch, otherwise, branchTaken, rfl, rfl, isElse, branchRead⟩)
    thenRead isClosing conditionRead isOpening
  · simp only [List.nil_append, List.append_nil] at thenRead noElse ⊢
    refine ⟨.conditional conditionRead.inLayer thenRead.grammatical (by simp) (by simp),
      fun _ => noElse, fun withoutFor => ?_, fun token => ?_, by simp⟩
    · simp only [WithoutFor.cons, WithoutFor.append] at withoutFor
      obtain ⟨_, _, _, _, thenWithout⟩ := withoutFor
      simp [conditionRead.written, thenRead.written thenWithout,
        Token.spelling_of_kind isIf rfl, Token.spelling_of_kind isOpening rfl,
        Token.spelling_of_kind isClosing rfl]
    · have conditionCount := conditionRead.tokens token
      have thenCount := thenRead.tokens token
      simp only [Stmt.tokens, List.count_append, List.count_cons]
      omega
  · simp only [List.nil_append, List.append_nil, List.cons_append] at thenRead branchRead ⊢
    have thenClosed : thenBranch.endsOpen = false := by
      cases opens : thenBranch.endsOpen with
      | false => rfl
      | true => exact (thenRead.closed opens otherwise rfl isElse).elim
    refine ⟨.conditional conditionRead.inLayer thenRead.grammatical
      (by simpa using branchRead.grammatical) fun _ => thenClosed, ?_, fun withoutFor => ?_,
      fun token => ?_, by simp⟩
    · intro opens
      exact branchRead.closed (by simpa [Stmt.endsOpen] using opens)
    · simp only [WithoutFor.cons, WithoutFor.append] at withoutFor
      obtain ⟨_, _, _, _, thenWithout, _, branchWithout⟩ := withoutFor
      simp [conditionRead.written, thenRead.written thenWithout,
        branchRead.written branchWithout, Token.spelling_of_kind isIf rfl,
        Token.spelling_of_kind isOpening rfl, Token.spelling_of_kind isClosing rfl,
        Token.spelling_of_kind isElse rfl]
    · have conditionCount := conditionRead.tokens token
      have thenCount := thenRead.tokens token
      have branchCount := branchRead.tokens token
      simp only [Stmt.tokens, List.count_append, List.count_cons]
      omega

theorem forInitializer (expressionReads : ReadsLayer expression .assignment) :
    Reads (Parser.forInitializer expression) fun taken initializer _ =>
      (∀ first ∈ initializer, first.Grammatical .list) ∧
        ∀ token, (Stmt.tokensOfAll initializer.toList).count token ≤ taken.count token := by
  refine Reads.acceptThen _ ?_ fun token => ?_
  · have firstReads : ReadsStatement (Parser.expressionStatement expression) .list :=
      expressionStatement expressionReads
    refine Reads.bind firstReads fun first firstTaken => Reads.pure ?_
    intro rest read _
    simpa [Stmt.tokensOfAll] using ⟨read.grammatical, read.tokens⟩
  · dsimp only
    split
    · rename_i isVar
      refine Reads.bind (varRest expressionReads token) fun first firstTaken => Reads.pure ?_
      intro rest read _
      have varRead := read isVar
      simpa [Stmt.tokensOfAll] using ⟨varRead.grammatical, varRead.tokens⟩
    · exact Reads.pure fun rest _ => by simp [Stmt.tokensOfAll]

theorem forRest (expressionReads : ReadsLayer expression .assignment)
    (nestedReads : ReadsStatement nested .branch) (isFor : keyword.kind = .kwFor) :
    Reads (Parser.forRest expression nested) fun taken s rest =>
      s.ReadFrom position (keyword :: taken) rest := by
  refine Reads.expectThen _ _ fun opening => ?_
  refine Reads.bind (forInitializer expressionReads) fun initializer initializerTaken => ?_
  refine Reads.bind (expressionUnless expressionReads _) fun condition conditionTaken => ?_
  refine Reads.expectThen _ _ fun semicolon => ?_
  refine Reads.bind (expressionUnless expressionReads _) fun increment incrementTaken => ?_
  refine Reads.expectThen _ _ fun closing => ?_
  refine Reads.bind nestedReads fun body bodyTaken => Reads.pure ?_
  rintro rest bodyRead isClosing ⟨incrementObeys, _, incrementTokens⟩ isSemicolon
    ⟨conditionObeys, _, conditionTokens⟩ ⟨initializerObeys, initializerTokens⟩ isOpening
  simp only [List.nil_append, List.append_nil] at bodyRead ⊢
  refine ⟨Stmt.Grammatical.forLoop initializerObeys conditionObeys incrementObeys
    bodyRead.grammatical, ?_, fun withoutFor => ?_, fun token => ?_, by simp⟩
  · intro opens
    exact bodyRead.closed (Stmt.endsOpen_of_forLoop opens)
  · exact (withoutFor keyword (by simp) isFor).elim
  · have initializerCount := initializerTokens token
    have conditionCount := conditionTokens token
    have incrementCount := incrementTokens token
    have bodyCount := bodyRead.tokens token
    rw [Stmt.count_tokens_forLoop]
    simp only [List.count_append, List.count_cons]
    omega

theorem statement (expressionReads : ReadsLayer expression .assignment)
    (nestedReads : ReadsStatement nested .branch) (innerReads : ReadsStatement inner .list) :
    ReadsStatement (Parser.statement expression nested inner) position := by
  refine Reads.acceptThen _ ?_ fun token => ?_
  · exact (expressionStatement expressionReads).mono fun _ _ _ read _ => read
  · dsimp only
    split
    case h_1 isFor =>
      exact (forRest expressionReads nestedReads isFor).mono fun _ _ _ read _ => read
    case h_2 isIf =>
      exact (ifRest expressionReads nestedReads isIf).mono fun _ _ _ read _ => read
    case h_3 isPrint =>
      exact (printRest expressionReads isPrint).mono fun _ _ _ read _ => read
    case h_4 isReturn =>
      exact (returnRest expressionReads isReturn).mono fun _ _ _ read _ => read
    case h_5 isWhile =>
      exact (whileRest expressionReads nestedReads isWhile).mono fun _ _ _ read _ => read
    case h_6 notFor notIf notPrint notReturn notWhile =>
      refine Reads.bind (blockRest innerReads) fun body blockTaken => Reads.pure ?_
      rintro rest ⟨bodyTaken, closing, rfl, isClosing, bodyRead⟩ wanted
      have isOpening : token.kind = .leftBrace := by simp_all
      refine ⟨.block bodyRead.grammatical, by simp [Stmt.endsOpen], fun withoutFor => ?_,
        fun other => ?_, by simp⟩
      · simp only [WithoutFor.cons, WithoutFor.append] at withoutFor
        obtain ⟨_, ⟨bodyWithout, _⟩, _⟩ := withoutFor
        simp [bodyRead.written bodyWithout, Token.spelling_of_kind isOpening rfl,
          Token.spelling_of_kind isClosing rfl]
      · have bodyCount := bodyRead.tokens other
        simp only [Stmt.tokens, List.count_append, List.count_cons, List.count_nil]
        omega

theorem attempt (expressionReads : ReadsLayer expression .assignment)
    (nestedReads : ReadsStatement nested .list) (innerReads : ReadsStatement inner .list) :
    ReadsStatement (Parser.attempt expression nested inner) .list := by
  refine Reads.acceptThen _ ?_ fun token => ?_
  · exact nestedReads.mono fun _ _ _ read _ => read
  · dsimp only
    split
    case h_1 isClass =>
      exact (classRest innerReads isClass).mono fun _ _ _ read _ => read
    case h_2 isFun =>
      refine Reads.bind (functionRest innerReads "function") fun decl declTaken => Reads.pure ?_
      intro rest read _
      refine ⟨read.grammatical, by simp [Stmt.endsOpen], fun withoutFor => ?_, fun other => ?_,
        by simp⟩
      · simp only [WithoutFor.cons, WithoutFor.append] at withoutFor
        obtain ⟨_, declWithout, _⟩ := withoutFor
        simp [read.written declWithout, Token.spelling_of_kind isFun rfl]
      · have declCount := read.tokens other
        simp only [Stmt.tokens, List.append_nil, List.count_cons]
        omega
    case h_3 notClass notFun =>
      refine (varRest expressionReads token).mono fun taken s rest read wanted => read ?_
      simp_all

theorem declaration (expressionReads : ReadsLayer expression .assignment)
    (nestedReads : ReadsStatement nested .list) (innerReads : ReadsStatement inner .list) :
    ReadsStatement (Parser.declaration expression nested inner) .list :=
  Reads.recovering (attempt expressionReads nestedReads innerReads)

mutual

theorem statementAt (depth : Nat) (position : Position) :
    ReadsStatement (Parser.statementAt depth) position := by
  cases depth with
  | zero => exact Reads.tooDeep _
  | succ depth =>
      exact statement (ReadsLayer.expressionAt depth) (statementAt depth .branch)
        (declarationAt depth)

theorem declarationAt (depth : Nat) : ReadsStatement (Parser.declarationAt depth) .list := by
  cases depth with
  | zero => exact Reads.tooDeep _
  | succ depth =>
      exact declaration (ReadsLayer.expressionAt depth) (statementAt depth .list)
        (declarationAt depth)

end

/-- The whole text is read. -/
theorem programAt (depth : Nat) :
    Reads (Parser.programAt depth) fun taken body rest =>
      rest = [] ∧ Stmt.ListReadFrom taken body := by
  refine Reads.bind Reads.remaining fun fuel none => ?_
  refine (many (declarationAt depth) _ fuel).mono ?_
  rintro taken body rest ⟨read, few, ended⟩ ⟨rfl, rfl⟩
  refine ⟨?_, by simpa using read⟩
  rcases ended with full | stopped
  · rw [List.length_append] at full
    exact List.length_eq_zero_iff.1 (by omega)
  · cases rest with
    | nil => rfl
    | cons token rest => simp at stopped

end ReadsStatement

end Parser

/-- What holds whenever the parser reads a text without complaint. -/
theorem Parser.Reads.ofParse {relation : List Token → List (Stmt Unit) → List Token → Prop}
    {depth : Nat} {tokens : List Token} {trees : List (Stmt Unit)}
    (reads : Reads (programAt depth) relation)
    (parsed : parseWithin depth tokens = ⟨some trees, []⟩) : relation tokens trees [] := by
  rw [parseWithin] at parsed
  cases outcome : programAt depth ⟨tokens, []⟩ with
  | error halt after => simp [outcome] at parsed
  | ok statements after =>
      simp only [outcome, Parse.mk.injEq, Option.some.injEq, List.reverse_eq_nil_iff] at parsed
      obtain ⟨rfl, quiet⟩ := parsed
      obtain ⟨added, taken, complaints, ahead, related⟩ := reads.onResult _ _ _ outcome
      obtain ⟨_, _, alsoAdded, _, readToEnd⟩ :=
        (ReadsStatement.programAt depth).onResult _ _ _ outcome
      rw [quiet, List.append_nil] at complaints alsoAdded
      obtain ⟨nothingAhead, _⟩ := readToEnd alsoAdded.symm
      simp only [nothingAhead, List.append_nil] at ahead related
      exact ahead ▸ related complaints.symm

end LoxLang
