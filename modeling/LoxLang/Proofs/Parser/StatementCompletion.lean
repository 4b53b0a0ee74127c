import LoxLang.Proofs.Parser.LayerCompletion

/-!
# Completing statements

What is missing of a statement is a closing brace or parenthesis, a name, a semicolon,
or a statement as the body of another one.
-/

namespace LoxLang.Parser

variable {α : Type}

namespace Completable

variable {follow : List Token → Prop} {bound : Nat} {sample : List Token} {item : Parser α}

section Loops

theorem many {wanted : Token → Bool} (completable : Completable Closing bound sample item)
    (advances : Advances item) (closing : ∀ others, follow others → Closing others)
    (stops : ∀ others, follow others → others.head?.any wanted = false) :
    Completable follow bound [] (remaining >>= fun fuel => Parser.many wanted item fuel) := by
  have accepts : Accepts follow [] (remaining >>= fun fuel => Parser.many wanted item fuel) :=
    Accepts.many.narrow stops
  refine ⟨⟨?_, accepts⟩, .many completable.locally advances advances closing stops⟩
  induction bound with
  | zero => exact .nothing
  | succ bound induction =>
      have again := induction (completable.below (Nat.le_succ bound))
      rw [congrFun (Circles.many advances).unfuelled ()]
      refine MendsOn.lookThen fun seen => ?_
      cases goesOn : seen.any wanted with
      | false =>
          simp only [Bool.false_eq_true, if_false]
          exact .pure []
      | true =>
          simp only [if_true]
          have items : MendsOn Closing (fun ahead => Below (bound + 1) ahead ∧ ahead.head? = seen)
              item := completable.mends.mono fun _ => And.left
          refine items.bindOf [] (completable.locally.mono fun _ => And.left)
            (fun first => again.map) (fun first => accepts.map) closing ?_
          rintro cursor first middle ⟨few, rfl⟩ succeeded
          refine Nat.lt_of_lt_of_le (advances cursor first middle succeeded fun atEnd => ?_)
            (Nat.le_of_lt_succ few)
          simp [atEnd] at goesOn

theorem inBraces (completable : Completable Closing bound sample item)
    (advances : Advances item) :
    Completable (AheadIs .rightBrace) bound [] (Parser.inBraces item) := by
  refine many completable advances (fun _ => AheadIs.closing (by decide)) ?_
  rintro others ⟨token, isHead, isClosing⟩
  rw [Option.mem_def] at isHead
  simp [isHead, isClosing]

end Loops

section Statements

variable {expression : Parser (Expr Unit)} {nested inner : Parser (Stmt Unit)}

/-- A name, no parameters, and no body. -/
abbrev aFunction : List Token :=
  [finishing .identifier, finishing .leftParen, finishing .rightParen, finishing .leftBrace,
    finishing .rightBrace]

/-- A name as a statement. -/
abbrev aStatement : List Token := [finishing .identifier, finishing .semicolon]

theorem blockRest (completable : Completable Closing bound sample inner)
    (advances : Advances inner) :
    Completable follow bound [finishing .rightBrace] (Parser.blockRest inner) := by
  refine ⟨?_, .blockRest completable.locally advances advances⟩
  rw [blockRest_eq]
  exact .thenExpect (inBraces completable advances) fun _ _ => .pure _

theorem functionRest (completable : Completable Closing bound sample inner)
    (advances : Advances inner) (noun : String) :
    Completable follow bound aFunction (Parser.functionRest inner noun) := by
  have params : Completable (AheadIs .rightParen) bound []
      (Parser.items (expect .identifier "parameter name") .tooManyParameters) :=
    items rfl (parameter _) (.expect _ fun _ _ => trivial)
  refine ⟨?_, .functionRest (completable.locally.anywhere id) advances advances noun⟩
  refine .expectThen fun name => ?_
  refine .expectThen fun opening => ?_
  refine .thenExpect params fun found closing => ?_
  refine .expectThen fun brace => ?_
  exact (blockRest completable advances).toMended.map

theorem superclass? : Completable Closing bound [] Parser.superclass? := by
  refine ⟨.optionally (by decide) (.pure none) fun less _ => ⟨aName, ?_⟩, .superclass?⟩
  exact .expectThen fun name => .pure _

theorem classRest (completable : Completable Closing bound sample inner)
    (advances : Advances inner) (reads : ReadsStatement inner .list) :
    Completable follow bound
      [finishing .identifier, finishing .leftBrace, finishing .rightBrace]
      (Parser.classRest inner) := by
  refine ⟨?_, .classRest (completable.locally.anywhere id) advances advances reads reads⟩
  have methods : Completable (AheadIs .rightBrace) bound []
      (Parser.inBraces (Parser.functionRest inner "method")) :=
    inBraces (functionRest completable advances "method")
      (Takes.functionRest reads "method").advances
  rw [classRest_eq]
  refine .expectThen fun name => ?_
  refine .thenExpect (superclass?.before (by decide)) fun superclass brace => ?_
  exact .thenExpect methods fun found closing => .pure _

theorem initializer? (completable : Completable Closing bound aName expression) :
    Completable Closing bound [] (Parser.initializer? expression) := by
  refine ⟨.optionally (by decide) (.pure none) fun equals _ => ⟨aName, ?_⟩,
    .initializer? completable.locally⟩
  exact (completable.below (Nat.sub_le bound 1)).toMended.map

theorem varRest (completable : Completable Closing bound aName expression) :
    Completable follow bound aStatement (Parser.varRest expression) := by
  refine ⟨?_, .varRest completable.locally⟩
  refine .expectThen fun name => ?_
  exact .thenExpect ((initializer? completable).before (by decide)) fun initializer semicolon =>
    .pure _

theorem expressionStatement (completable : Completable Closing bound aName expression) :
    Completable follow bound aStatement (Parser.expressionStatement expression) := by
  refine ⟨?_, .expressionStatement completable.locally⟩
  exact .thenExpect (completable.before (by decide)) fun value semicolon => .pure _

theorem expressionUnless {kind : TokenKind} (closes : kind ∉ continuing)
    (completable : Completable Closing bound aName expression) (moves : Moves expression) :
    Completable (AheadIs kind) bound [] (Parser.expressionUnless kind expression) := by
  refine ⟨⟨.unlessAhead fun isAhead => ?_, .isAhead (.pure none)⟩,
    .expressionUnless completable.locally moves closes⟩
  cases isAhead with
  | true => exact .pure none
  | false => exact (completable.before closes).mends.map

theorem forInitializer (completable : Completable Closing bound aName expression)
    (reads : ReadsLayer expression .assignment) :
    Completable follow bound aStatement (Parser.forInitializer expression) := by
  refine ⟨.acceptThen (expressionStatement completable).toMended.map
    (fun _ _ => startsWithName (by decide) _) fun token _ => ?_,
    .forInitializer completable.locally reads⟩
  dsimp only
  split
  · exact ⟨_, (varRest (completable.below (Nat.sub_le bound 1))).toMended.map⟩
  · exact ⟨[], .pure none⟩

theorem forRest (expressionCompletable : Completable Closing bound aName expression)
    (moves : Moves expression) (reads : ReadsLayer expression .assignment)
    (nestedCompletable : Completable Closing bound aStatement nested) :
    ∃ sample, Mended Closing bound sample (Parser.forRest expression nested) := by
  have initializer : Completable Always bound aStatement (Parser.forInitializer expression) :=
    forInitializer expressionCompletable reads
  have clause {kind : TokenKind} (closes : kind ∉ continuing) :
      Completable (AheadIs kind) bound [] (Parser.expressionUnless kind expression) :=
    expressionUnless closes expressionCompletable moves
  -- no clause need be there, only what stands behind it
  refine ⟨finishing .leftParen :: (aStatement ++ finishing .semicolon :: finishing .rightParen ::
    aStatement), ?_⟩
  refine .expectThen fun opening => ?_
  refine .bind initializer (fun first => ?_) fun _ _ => trivial
  refine .thenExpect (clause (by decide)) fun condition semicolon => ?_
  refine .thenExpect (clause (by decide)) fun increment closing => ?_
  exact nestedCompletable.toMended.map

theorem elseBranch? (completable : Completable Closing bound aStatement nested) :
    Mended Closing bound [] (Parser.elseBranch? nested) := by
  refine .optionally (by decide) (.pure none) fun otherwise _ => ⟨aStatement, ?_⟩
  exact (completable.below (Nat.sub_le bound 1)).toMended.map

theorem ifRest (expressionCompletable : Completable Closing bound aName expression)
    (nestedCompletable : Completable Closing bound aStatement nested) :
    ∃ sample, Mended Closing bound sample (Parser.ifRest expression nested) := by
  refine ⟨finishing .leftParen :: (aName ++ finishing .rightParen :: aStatement), ?_⟩
  refine .expectThen fun opening => ?_
  refine .thenExpect (expressionCompletable.before (by decide)) fun condition closing => ?_
  refine .andThen nestedCompletable fun thenBranch => ?_
  exact (elseBranch? nestedCompletable).map

theorem printRest (completable : Completable Closing bound aName expression) :
    Mended follow bound aStatement (Parser.printRest expression) :=
  .thenExpect (completable.before (by decide)) fun value _ => .pure (Stmt.print value)

theorem returnRest (completable : Completable Closing bound aName expression)
    (moves : Moves expression) (keyword : Token) :
    Mended follow bound [finishing .semicolon] (Parser.returnRest keyword expression) :=
  .thenExpect (expressionUnless (by decide) completable moves) fun value _ =>
    .pure (Stmt.return keyword value)

theorem whileRest (expressionCompletable : Completable Closing bound aName expression)
    (nestedCompletable : Completable Closing bound aStatement nested) :
    ∃ sample, Mended Closing bound sample (Parser.whileRest expression nested) := by
  refine ⟨finishing .leftParen :: (aName ++ finishing .rightParen :: aStatement), ?_⟩
  refine .expectThen fun opening => ?_
  refine .thenExpect (expressionCompletable.before (by decide)) fun condition closing => ?_
  exact nestedCompletable.toMended.map

theorem statement (expressionCompletable : Completable Closing bound aName expression)
    (moves : Moves expression) (reads : ReadsLayer expression .assignment)
    (nestedCompletable : Completable Closing (bound - 1) aStatement nested)
    (innerCompletable : Completable Closing (bound - 1) aStatement inner)
    (advances : Advances inner) :
    Completable Closing bound aStatement (Parser.statement expression nested inner) := by
  have retraces : Retraces strictly Closing bound (Parser.statement expression nested inner)
      (Parser.statement expression nested inner) :=
    .statement expressionCompletable.locally moves reads nestedCompletable.locally
      (innerCompletable.locally.anywhere id) advances advances
  have fewer := expressionCompletable.below (Nat.sub_le bound 1)
  refine ⟨.acceptThen (expressionStatement expressionCompletable).toMended
    (fun _ _ => startsWithName (by decide) _) fun token _ => ?_, retraces⟩
  dsimp only
  split
  case h_1 => exact forRest fewer moves reads nestedCompletable
  case h_2 => exact ifRest fewer nestedCompletable
  case h_3 => exact ⟨_, printRest fewer⟩
  case h_4 => exact ⟨_, returnRest fewer moves token⟩
  case h_5 => exact whileRest fewer nestedCompletable
  case h_6 => exact ⟨_, (blockRest innerCompletable advances).toMended.map⟩

theorem attempt (expressionCompletable : Completable Closing bound aName expression)
    (nestedCompletable : Completable Closing bound aStatement nested) (nestedMoves : Moves nested)
    (innerCompletable : Completable Closing (bound - 1) aStatement inner)
    (advances : Advances inner) (reads : ReadsStatement inner .list) :
    Completable Closing bound aStatement (Parser.attempt expression nested inner) := by
  have retraces : Retraces strictly Closing bound (Parser.attempt expression nested inner)
      (Parser.attempt expression nested inner) :=
    .attempt expressionCompletable.locally nestedCompletable.locally nestedMoves
      (innerCompletable.locally.anywhere id) advances advances reads reads
  refine ⟨.acceptThen nestedCompletable.toMended (fun _ _ => startsWithName (by decide) _)
    fun token _ => ?_, retraces⟩
  dsimp only
  split
  · exact ⟨_, (classRest innerCompletable advances reads).toMended⟩
  · exact ⟨_, (functionRest innerCompletable advances "function").toMended.map⟩
  · exact ⟨_, (varRest (expressionCompletable.below (Nat.sub_le bound 1))).toMended⟩

end Statements

end Completable

namespace Unlimited

open Completable (aStatement)

theorem statement_accepts : Accepts Closing aStatement (statement .strict) := by
  rw [statement_eq]
  exact (Completable.expressionStatement (completable 0).2).accepts.decline
    fun _ _ => Completable.startsWithName (by decide) _

theorem declaration_accepts : Accepts Closing aStatement (declaration .strict) := by
  rw [declaration_eq]
  exact statement_accepts.decline fun _ _ => Completable.startsWithName (by decide) _

/-- By induction on the number of tokens: what nests stands after a token. -/
theorem statement_completable (bound : Nat) :
    Completable Closing bound aStatement (statement .strict) ∧
      Completable Closing bound aStatement (declaration .strict) := by
  induction bound with
  | zero =>
      exact ⟨⟨⟨.nothing, statement_accepts⟩, retraces_statement (.strict _) 0⟩,
        ⟨⟨.nothing, declaration_accepts⟩, .anywhere id (retraces_declaration (.strict strictly) 0)⟩⟩
  | succ bound induction =>
      have expressionCompletable := (completable (bound + 1)).2
      have statementCompletable :
          Completable Closing (bound + 1) aStatement (statement .strict) := by
        rw [statement_eq]
        exact .statement expressionCompletable expression_moves expression_reads induction.1
          induction.2 (declaration_advances .strict)
      refine ⟨statementCompletable, ?_⟩
      rw [declaration_eq]
      exact .attempt expressionCompletable statementCompletable (statement_takes .strict).moves
        induction.2 (declaration_advances .strict) (declaration_reads .strict)

/-- Whatever has been read of a program can be completed to a whole one. -/
theorem program_completable (bound : Nat) :
    Completable (· = []) bound [] (program .strict) :=
  .many (statement_completable bound).2 (declaration_advances .strict)
    (by rintro _ rfl; exact nofun) (by rintro _ rfl; rfl)

end Unlimited

end LoxLang.Parser
