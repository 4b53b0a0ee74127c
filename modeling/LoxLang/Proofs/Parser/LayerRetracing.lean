import LoxLang.Proofs.Parser.Retracing

/-!
# Retracing the grammar

Layer by layer, and form of statement by form of statement: if the parsers that a
parser is made from are retraced, so is the parser.  What comes after an expression
or a statement may be any token with which nothing goes on.
-/

namespace LoxLang.Parser

variable {α : Type}

namespace Retraces

variable {terms : Terms} {follow : List Token → Prop} {bound : Nat}

section Loops

variable {item twin : Parser α}

theorem map {β : Type} {make : α → β} (retraces : Retraces terms follow bound item twin) :
    Retraces terms follow bound (do return make (← item)) (do return make (← twin)) :=
  retraces.bind fun value => .pure (make value)

theorem many {wanted : Token → Bool} (retraces : Retraces terms Closing bound item twin)
    (advances : Advances item) (twinAdvances : Advances twin)
    (closing : ∀ others, follow others → Closing others)
    (stops : ∀ others, follow others → others.head?.any wanted = false) :
    Retraces terms follow bound (remaining >>= fun fuel => Parser.many wanted item fuel)
      (remaining >>= fun fuel => Parser.many wanted twin fuel) := by
  induction bound with
  | zero =>
      exact .nothing
        (.bind Reads.remaining.onward fun fuel => (Reads.many wanted retraces.onward fuel).onward)
        (.bind Reads.remaining.onward fun fuel => (Reads.many wanted retraces.twinOnward fuel).onward)
  | succ bound induction =>
      have again := induction (retraces.below (Nat.le_succ bound))
      rw [congrFun (Circles.many advances).unfuelled (),
        congrFun (Circles.many twinAdvances).unfuelled ()]
      have shrinks : ∀ cursor first middle, cursor.ahead.head?.any wanted = true →
          item cursor = .ok first middle → middle.ahead.length < cursor.ahead.length := by
        intro cursor first middle goesOn succeeded
        refine advances cursor first middle succeeded fun atEnd => ?_
        simp [atEnd] at goesOn
      refine .lookThen (fun seen => ?_) fun seen => ?_
      · cases goesOn : seen.any wanted with
        | false => exact .inl fun others follows => by simp [stops others follows]
        | true =>
            refine .inr fun cursor result after isSeen succeeded => ?_
            simp only [if_true] at succeeded
            obtain ⟨first, middle, itemSucceeded, restSucceeded⟩ := bind_eq_ok.1 succeeded
            have fewer := shrinks cursor first middle (isSeen ▸ goesOn) itemSucceeded
            have fewest := (again.onward.bind fun rest => .pure (first :: rest)).length_le
              restSucceeded
            exact Nat.lt_of_le_of_lt fewest fewer
      · cases goesOn : seen.any wanted with
        | false =>
            simp only [Bool.false_eq_true, if_false]
            exact .pure []
        | true =>
            simp only [if_true]
            refine RetracesOn.bindOr (retraces.mono fun _ => And.left)
              (fun first => again.map) ?_ (.inl closing)
            rintro cursor first middle ⟨few, isSeen⟩ succeeded
            exact Nat.lt_of_lt_of_le (shrinks cursor first middle (isSeen ▸ goesOn) succeeded)
              (Nat.le_of_lt_succ few)

theorem itemsAfter {excess : SyntaxError} (mild : excess.endsStatement = false)
    (retraces : Retraces terms Closing bound item twin) (moves : Moves item) (count : Nat) :
    Retraces terms Closing bound
      (remaining >>= fun fuel => Parser.itemsAfter item excess fuel count)
      (remaining >>= fun fuel => Parser.itemsAfter twin excess fuel count) := by
  induction bound generalizing count with
  | zero =>
      exact .nothing
        (.bind Reads.remaining.onward fun fuel =>
          (Reads.itemsAfter excess retraces.onward fuel count).onward)
        (.bind Reads.remaining.onward fun fuel =>
          (Reads.itemsAfter excess retraces.twinOnward fuel count).onward)
  | succ bound induction =>
      have again := fun count => induction (retraces.below (Nat.le_succ bound)) count
      rw [congrFun (Circles.itemsAfter retraces.onward excess).unfuelled count,
        congrFun (Circles.itemsAfter retraces.twinOnward excess).unfuelled count]
      refine optionally (by decide) (.pure []) fun comma _ => ?_
      have oneMore : Retraces terms Closing bound
          (item >>= fun next => do
            return next :: (← remaining >>= fun fuel =>
              Parser.itemsAfter item excess fuel (count + 1)))
          (twin >>= fun next => do
            return next :: (← remaining >>= fun fuel =>
              Parser.itemsAfter twin excess fuel (count + 1))) :=
        (retraces.below (Nat.le_succ bound)).bind fun next => (again (count + 1)).map
      have moreMoves : Moves (item >>= fun next => do
          return next :: (← remaining >>= fun fuel =>
            Parser.itemsAfter item excess fuel (count + 1))) :=
        moves.first fun next => .bind (again (count + 1)).onward fun rest => .pure _
      dsimp only
      split
      · refine .lookThen (fun about => .inr ?_) fun about => ?_
        · intro cursor result after _ succeeded
          have complaintMoves := Takes.second (Reads.complain about excess).onward
            fun _ => moreMoves
          exact complaintMoves.length_lt succeeded
        · refine RetracesOn.bindOr (.complain about mild ?_) (fun _ => oneMore) ?_ (.inl fun _ => id)
          · rintro rfl ahead ⟨_, isNone⟩
            exact List.head?_eq_none_iff.1 isNone
          · rintro cursor _ middle ⟨few, _⟩ complained
            cases complained
            exact few
      · exact oneMore

theorem items {excess : SyntaxError} (mild : excess.endsStatement = false)
    (retraces : Retraces terms Closing bound item twin) (moves : Moves item) :
    Retraces terms (AheadIs .rightParen) bound (Parser.items item excess)
      (Parser.items twin excess) := by
  rw [items_eq, items_eq]
  have others : Retraces terms Closing bound
      (item >>= fun first => do
        return first :: (← remaining >>= fun fuel => Parser.itemsAfter item excess fuel 1))
      (twin >>= fun first => do
        return first :: (← remaining >>= fun fuel => Parser.itemsAfter twin excess fuel 1)) :=
    retraces.bind fun first => (itemsAfter mild retraces moves 1).map
  have othersMove : Moves (item >>= fun first => do
      return first :: (← remaining >>= fun fuel => Parser.itemsAfter item excess fuel 1)) := by
    refine moves.first fun first => ?_
    exact .bind (itemsAfter mild retraces moves 1).onward fun rest => .pure _
  refine unlessAhead (fun _ => id) othersMove fun isAhead => ?_
  cases isAhead with
  | true => exact .pure []
  | false => exact others.narrow fun _ => AheadIs.closing (by decide)

end Loops

section Expressions

variable {operand otherOperand unary otherUnary assigned otherAssigned nested otherNested :
  Parser (Expr Unit)}

theorem operatorsAfter {kinds : List TokenKind} (continues : ∀ kind ∈ kinds, kind ∈ continuing)
    (join : Expr Unit → Token → Expr Unit → Expr Unit)
    (retraces : Retraces terms Closing bound operand otherOperand) (left : Expr Unit) :
    Retraces terms Closing bound
      (remaining >>= fun fuel => Parser.operatorsAfter operand kinds join fuel left)
      (remaining >>= fun fuel => Parser.operatorsAfter otherOperand kinds join fuel left) := by
  induction bound generalizing left with
  | zero =>
      exact .nothing
        (.bind Reads.remaining.onward fun fuel => .operatorsAfter retraces.onward fuel left)
        (.bind Reads.remaining.onward fun fuel => .operatorsAfter retraces.twinOnward fuel left)
  | succ bound induction =>
      have fewer := retraces.below (Nat.le_succ bound)
      rw [congrFun (Circles.operatorsAfter retraces.onward kinds join).unfuelled left,
        congrFun (Circles.operatorsAfter retraces.twinOnward kinds join).unfuelled left]
      refine optionally continues (.pure left) fun op _ => ?_
      refine fewer.bind fun right => ?_
      exact induction fewer (join left op right)

theorem leftAssociative {kinds : List TokenKind} (continues : ∀ kind ∈ kinds, kind ∈ continuing)
    (join : Expr Unit → Token → Expr Unit → Expr Unit)
    (retraces : Retraces terms Closing bound operand otherOperand) :
    Retraces terms Closing bound (Parser.leftAssociative operand kinds join)
      (Parser.leftAssociative otherOperand kinds join) :=
  retraces.bind fun left => operatorsAfter continues join retraces left

theorem disjunction (retraces : Retraces terms Closing bound unary otherUnary) :
    Retraces terms Closing bound (Parser.disjunction unary) (Parser.disjunction otherUnary) := by
  have product : Retraces terms Closing bound (Parser.product unary) (Parser.product otherUnary) :=
    leftAssociative (by decide) .binary retraces
  have sum : Retraces terms Closing bound (Parser.sum unary) (Parser.sum otherUnary) :=
    leftAssociative (by decide) .binary product
  have comparison : Retraces terms Closing bound (Parser.comparison unary)
      (Parser.comparison otherUnary) := leftAssociative (by decide) .binary sum
  have equality : Retraces terms Closing bound (Parser.equality unary)
      (Parser.equality otherUnary) := leftAssociative (by decide) .binary comparison
  have conjunction : Retraces terms Closing bound (Parser.conjunction unary)
      (Parser.conjunction otherUnary) := leftAssociative (by decide) .logical equality
  exact leftAssociative (by decide) .logical conjunction

theorem assignment (unaryRetraces : Retraces terms Closing bound unary otherUnary)
    (assignedRetraces : Retraces terms Closing (bound - 1) assigned otherAssigned) :
    Retraces terms Closing bound (Parser.assignment unary assigned)
      (Parser.assignment otherUnary otherAssigned) := by
  refine (disjunction unaryRetraces).bind fun target => ?_
  refine optionally (by decide) (.pure target) fun equals _ => ?_
  refine assignedRetraces.bind fun value => ?_
  cases assignTo value target with
  | some expr => exact .pure expr
  | none => exact bind (.complain _ rfl nofun) fun _ => .pure target

/-- What nests stands in parentheses. -/
theorem primary (retraces : Retraces terms Closing (bound - 1) nested otherNested) :
    Retraces terms Closing bound (Parser.primary nested) (Parser.primary otherNested) := by
  refine acceptThen (.inr (.fail _)) (.fail _) fun token _ => ?_
  dsimp only
  split
  case h_3 =>
      refine expectThen fun dot => ?_
      exact expectThen fun method => .pure _
  case h_6 => exact retraces.thenExpect fun inner closing => .pure _
  all_goals exact .pure _

theorem callsAfter (retraces : Retraces terms Closing (bound - 1) nested otherNested)
    (moves : Moves nested) (callee : Expr Unit) :
    Retraces terms Closing bound
      (remaining >>= fun fuel => Parser.callsAfter nested fuel callee)
      (remaining >>= fun fuel => Parser.callsAfter otherNested fuel callee) := by
  have argsOnward : ∀ {parser : Parser (Expr Unit)}, Onward parser →
      Onward (Parser.items parser .tooManyArguments) := fun onward => (Reads.items _ onward).onward
  induction bound generalizing callee with
  | zero =>
      exact .nothing
        (.bind Reads.remaining.onward fun fuel =>
          .callsAfter (argsOnward retraces.onward) fuel callee)
        (.bind Reads.remaining.onward fun fuel =>
          .callsAfter (argsOnward retraces.twinOnward) fuel callee)
  | succ bound induction =>
      have again := fun callee => induction (retraces.below (Nat.sub_le _ _)) callee
      rw [congrFun (Circles.callsAfter (argsOnward retraces.onward)).unfuelled callee,
        congrFun (Circles.callsAfter (argsOnward retraces.twinOnward)).unfuelled callee]
      refine optionally (by decide) (.pure callee) fun token _ => ?_
      dsimp only
      split
      · exact (items rfl retraces moves).thenExpect fun args paren => again (.call callee paren args)
      · exact expectThen fun name => again (.get callee name)

theorem call (retraces : Retraces terms Closing (bound - 1) nested otherNested)
    (moves : Moves nested) :
    Retraces terms Closing bound (Parser.call nested) (Parser.call otherNested) :=
  (primary retraces).bind fun callee => callsAfter retraces moves callee

theorem prefixed (operandRetraces : Retraces terms Closing (bound - 1) operand otherOperand)
    (nestedRetraces : Retraces terms Closing (bound - 1) nested otherNested)
    (moves : Moves nested) :
    Retraces terms Closing bound (Parser.prefixed operand nested)
      (Parser.prefixed otherOperand otherNested) := by
  refine acceptThen (.inr (.call nestedRetraces.onward)) (call nestedRetraces moves) fun op _ => ?_
  exact operandRetraces.map

end Expressions

section Statements

variable {expression otherExpression : Parser (Expr Unit)}
  {nested otherNested inner otherInner : Parser (Stmt Unit)}

theorem inBraces {α : Type} {item twin : Parser α}
    (retraces : Retraces terms Closing bound item twin) (advances : Advances item)
    (twinAdvances : Advances twin) :
    Retraces terms (AheadIs .rightBrace) bound (Parser.inBraces item) (Parser.inBraces twin) := by
  refine many retraces advances twinAdvances (fun _ => AheadIs.closing (by decide)) ?_
  rintro others ⟨token, isHead, isClosing⟩
  rw [Option.mem_def] at isHead
  simp [isHead, isClosing]

theorem blockRest (retraces : Retraces terms Closing bound inner otherInner)
    (advances : Advances inner) (otherAdvances : Advances otherInner) :
    Retraces terms follow bound (Parser.blockRest inner) (Parser.blockRest otherInner) := by
  rw [blockRest_eq, blockRest_eq]
  exact (inBraces retraces advances otherAdvances).thenExpect fun body _ => .pure body

theorem functionRest (retraces : Retraces terms.opened Closing bound inner otherInner)
    (advances : Advances inner) (otherAdvances : Advances otherInner) (noun : String) :
    Retraces terms follow bound (Parser.functionRest inner noun)
      (Parser.functionRest otherInner noun) := by
  have param : Retraces terms Closing bound (Parser.expect .identifier "parameter name")
      (Parser.expect .identifier "parameter name") := expect _ _
  have paramMoves : Moves (Parser.expect .identifier "parameter name") :=
    .expect _ fun _ _ => trivial
  refine expectThen fun name => ?_
  refine expectThen fun opening => ?_
  refine (items rfl param paramMoves).thenExpect fun params closing => ?_
  -- from the brace on the twin may be as lenient as it likes
  refine expectBrace fun brace => ?_
  exact (blockRest retraces advances otherAdvances).map

theorem superclass? : Retraces terms Closing bound Parser.superclass? Parser.superclass? := by
  refine optionally (by decide) (.pure none) fun less _ => ?_
  exact expectThen fun name => .pure _

theorem classRest (retraces : Retraces terms.opened Closing bound inner otherInner)
    (advances : Advances inner) (otherAdvances : Advances otherInner)
    (innerReads : ReadsStatement inner .list) (otherReads : ReadsStatement otherInner .list) :
    Retraces terms follow bound (Parser.classRest inner) (Parser.classRest otherInner) := by
  rw [classRest_eq, classRest_eq]
  have methodRetraces : Retraces terms.opened Closing bound (Parser.functionRest inner "method")
      (Parser.functionRest otherInner "method") := by
    refine functionRest ?_ advances otherAdvances "method"
    exact retraces
  have methods := inBraces methodRetraces (Takes.functionRest innerReads "method").advances
    (Takes.functionRest otherReads "method").advances
  refine expectThen fun name => ?_
  refine superclass?.thenBrace fun superclass brace => ?_
  exact methods.thenExpect fun found closing => .pure _

theorem initializer? (retraces : Retraces terms Closing bound expression otherExpression) :
    Retraces terms Closing bound (Parser.initializer? expression)
      (Parser.initializer? otherExpression) := by
  refine optionally (by decide) (.pure none) fun equals _ => ?_
  exact (retraces.below (Nat.sub_le bound 1)).map

theorem varRest (retraces : Retraces terms Closing bound expression otherExpression) :
    Retraces terms follow bound (Parser.varRest expression) (Parser.varRest otherExpression) := by
  refine expectThen fun name => ?_
  exact (initializer? retraces).thenExpect fun initializer semicolon => .pure _

theorem expressionStatement (retraces : Retraces terms Closing bound expression otherExpression) :
    Retraces terms follow bound (Parser.expressionStatement expression)
      (Parser.expressionStatement otherExpression) :=
  retraces.thenExpect fun value _ => .pure (Stmt.expression value)

theorem expressionUnless (retraces : Retraces terms Closing bound expression otherExpression)
    (moves : Moves expression) {kind : TokenKind} (closes : kind ∉ continuing) :
    Retraces terms (AheadIs kind) bound (Parser.expressionUnless kind expression)
      (Parser.expressionUnless kind otherExpression) := by
  have valueMoves : Moves (do return some (← expression)) := moves.first fun value => .pure _
  refine unlessAhead (fun _ => id) valueMoves fun isAhead => ?_
  cases isAhead with
  | true => exact .pure none
  | false => exact retraces.map.narrow fun _ => AheadIs.closing closes

theorem forInitializer (retraces : Retraces terms Closing bound expression otherExpression)
    (reads : ReadsLayer expression .assignment) :
    Retraces terms follow bound (Parser.forInitializer expression)
      (Parser.forInitializer otherExpression) := by
  have firstMoves : Moves (do return some (← Parser.expressionStatement expression)) :=
    (Takes.expressionStatement reads).moves.first fun first => .pure _
  refine acceptThen (.inr firstMoves) (expressionStatement retraces).map fun token _ => ?_
  dsimp only
  split
  · exact (varRest (retraces.below (Nat.sub_le bound 1))).map
  · exact .pure none

theorem forRest (expressionRetraces : Retraces terms Closing bound expression otherExpression)
    (moves : Moves expression) (reads : ReadsLayer expression .assignment)
    (nestedRetraces : Retraces terms Closing bound nested otherNested) :
    Retraces terms Closing bound (Parser.forRest expression nested)
      (Parser.forRest otherExpression otherNested) := by
  have clause {kind : TokenKind} (closes : kind ∉ continuing) :
      Retraces terms (AheadIs kind) bound (Parser.expressionUnless kind expression)
        (Parser.expressionUnless kind otherExpression) :=
    expressionUnless expressionRetraces moves closes
  refine expectThen fun opening => ?_
  refine bind (forInitializer expressionRetraces reads) fun initializer => ?_
  refine (clause (by decide)).thenExpect fun condition semicolon => ?_
  refine (clause (by decide)).thenExpect fun increment closing => ?_
  exact nestedRetraces.map

theorem elseBranch? (retraces : Retraces terms Closing bound nested otherNested) :
    Retraces terms Closing bound (Parser.elseBranch? nested) (Parser.elseBranch? otherNested) := by
  refine optionally (by decide) (.pure none) fun otherwise _ => ?_
  exact (retraces.below (Nat.sub_le bound 1)).map

theorem ifRest (expressionRetraces : Retraces terms Closing bound expression otherExpression)
    (nestedRetraces : Retraces terms Closing bound nested otherNested) :
    Retraces terms Closing bound (Parser.ifRest expression nested)
      (Parser.ifRest otherExpression otherNested) := by
  refine expectThen fun opening => ?_
  refine expressionRetraces.thenExpect fun condition closing => ?_
  refine nestedRetraces.bind fun thenBranch => ?_
  exact (elseBranch? nestedRetraces).map

theorem printRest (retraces : Retraces terms Closing bound expression otherExpression) :
    Retraces terms follow bound (Parser.printRest expression) (Parser.printRest otherExpression) :=
  retraces.thenExpect fun value _ => .pure (Stmt.print value)

theorem returnRest (keyword : Token)
    (retraces : Retraces terms Closing bound expression otherExpression)
    (moves : Moves expression) :
    Retraces terms follow bound (Parser.returnRest keyword expression)
      (Parser.returnRest keyword otherExpression) :=
  (expressionUnless retraces moves (by decide)).thenExpect fun value _ =>
    .pure (Stmt.return keyword value)

theorem whileRest (expressionRetraces : Retraces terms Closing bound expression otherExpression)
    (nestedRetraces : Retraces terms Closing bound nested otherNested) :
    Retraces terms Closing bound (Parser.whileRest expression nested)
      (Parser.whileRest otherExpression otherNested) := by
  refine expectThen fun opening => ?_
  refine expressionRetraces.thenExpect fun condition closing => ?_
  exact nestedRetraces.map

theorem statement (expressionRetraces : Retraces terms Closing bound expression otherExpression)
    (moves : Moves expression) (reads : ReadsLayer expression .assignment)
    (nestedRetraces : Retraces terms Closing (bound - 1) nested otherNested)
    (innerRetraces : Retraces terms.opened Closing (bound - 1) inner otherInner)
    (advances : Advances inner) (otherAdvances : Advances otherInner) :
    Retraces terms Closing bound (Parser.statement expression nested inner)
      (Parser.statement otherExpression otherNested otherInner) := by
  have fewer := expressionRetraces.below (Nat.sub_le bound 1)
  refine acceptOpening (.inr (Takes.expressionStatement reads).moves)
    (expressionStatement expressionRetraces) fun token isOne => ?_
  dsimp only
  split
  case h_1 => exact (forRest fewer moves reads nestedRetraces).past token
  case h_2 => exact (ifRest fewer nestedRetraces).past token
  case h_3 => exact (printRest fewer).past token
  case h_4 => exact (returnRest token fewer moves).past token
  case h_5 => exact (whileRest fewer nestedRetraces).past token
  case h_6 =>
      exact RetracesOn.inBraces (blockRest innerRetraces advances otherAdvances).map (by simp_all)

theorem attempt (expressionRetraces : Retraces terms Closing bound expression otherExpression)
    (nestedRetraces : Retraces terms Closing bound nested otherNested) (nestedMoves : Moves nested)
    (innerRetraces : Retraces terms.opened Closing (bound - 1) inner otherInner)
    (advances : Advances inner) (otherAdvances : Advances otherInner)
    (innerReads : ReadsStatement inner .list) (otherReads : ReadsStatement otherInner .list) :
    Retraces terms Closing bound (Parser.attempt expression nested inner)
      (Parser.attempt otherExpression otherNested otherInner) := by
  refine acceptThen (.inr nestedMoves) nestedRetraces fun token _ => ?_
  dsimp only
  split
  · exact classRest innerRetraces advances otherAdvances innerReads otherReads
  · exact (functionRest innerRetraces advances otherAdvances "function").map
  · exact varRest (expressionRetraces.below (Nat.sub_le bound 1))

end Statements

end Retraces

end LoxLang.Parser
