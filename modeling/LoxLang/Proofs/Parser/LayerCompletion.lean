import LoxLang.Proofs.Parser.Completion

/-!
# Completing expressions

An expression is completed with a name.  So whatever part of an expression is missing,
there are tokens for it.
-/

namespace LoxLang.Parser

variable {α β : Type}

/-- What a parser stops at is completed, and what it has not begun is read from a sample. -/
structure Mended (follow : List Token → Prop) (bound : Nat) (sample : List Token)
    (parser : Parser α) : Prop where
  mends : Mends follow bound parser
  accepts : Accepts follow sample parser

/-- Besides, what it has read it reads again in front of other tokens. -/
structure Completable (follow : List Token → Prop) (bound : Nat) (sample : List Token)
    (parser : Parser α) : Prop extends Mended follow bound sample parser where
  locally : Retraces strictly follow bound parser parser

namespace Mended

variable {follow early : List Token → Prop} {bound : Nat} {sample last : List Token}
  {parser : Parser α} {next : α → Parser β}

theorem below {smaller : Nat} (mended : Mended follow bound sample parser)
    (le : smaller ≤ bound) : Mended follow smaller sample parser :=
  ⟨mended.mends.below le, mended.accepts⟩

theorem narrow (mended : Mended early bound sample parser)
    (implies : ∀ others, follow others → early others) : Mended follow bound sample parser :=
  ⟨mended.mends.narrow implies, mended.accepts.narrow implies⟩

theorem pure (value : α) : Mended follow bound [] (Pure.pure value) := ⟨.pure value, .pure value⟩

theorem complain (about : Option Token) (error : SyntaxError) :
    Mended follow bound [] (Parser.complain about error) :=
  ⟨.complain about error, .complain about error⟩

theorem map {make : α → β} (mended : Mended follow bound sample parser) :
    Mended follow bound sample (do return make (← parser)) :=
  ⟨mended.mends.map, mended.accepts.map⟩

theorem bind (first : Completable early bound sample parser)
    (second : ∀ value, Mended follow bound last (next value))
    (joins : ∀ others, follow others → early (last ++ others)) :
    Mended follow bound (sample ++ last) (parser >>= next) := by
  have accepts := fun value => (second value).accepts
  refine ⟨?_, first.accepts.bind accepts joins⟩
  exact .bind last first.mends first.locally (fun value => (second value).mends) accepts joins

/-- The second part may be missing. -/
theorem andThen (first : Completable follow bound sample parser)
    (second : ∀ value, Mended follow bound [] (next value)) :
    Mended follow bound sample (parser >>= next) := by
  have whole := bind first second fun _ => id
  rwa [List.append_nil] at whole

theorem expectThen {kind : TokenKind} {what : String} {next : Token → Parser β}
    (goesOn : ∀ token, Mended follow bound sample (next token)) :
    Mended follow bound (finishing kind :: sample) (Parser.expect kind what >>= next) := by
  refine ⟨?_, .expect rfl (goesOn _).accepts⟩
  exact .expectThen sample (fun token => (goesOn token).mends) fun token => (goesOn token).accepts

/-- What comes before a token that has to be there is completed in front of it. -/
theorem thenExpect {kind : TokenKind} {what : String} {next : α → Token → Parser β}
    (first : Completable (AheadIs kind) bound sample parser)
    (goesOn : ∀ value token, Mended follow bound last (next value token)) :
    Mended follow bound (sample ++ finishing kind :: last)
      (parser >>= fun value => Parser.expect kind what >>= next value) :=
  bind first (fun value => expectThen (goesOn value)) fun _ _ => ⟨_, rfl, rfl⟩

/-- The sample is one without a token that would be accepted. -/
theorem acceptThen {kinds : List TokenKind} {branch : Option Token → Parser β}
    (absent : Mended follow bound sample (branch none))
    (unwanted : ∀ others, follow others → ∀ token ∈ (sample ++ others).head?, token.kind ∉ kinds)
    (present : ∀ token, token.kind ∈ kinds →
      ∃ other, Mended follow (bound - 1) other (branch (some token))) :
    Mended follow bound sample (accept kinds >>= branch) := by
  refine ⟨.acceptThen absent.mends (fun token isOne => ?_) (fun token isOne => ?_),
    absent.accepts.decline unwanted⟩
  · obtain ⟨_, mended⟩ := present token isOne
    exact mended.mends
  · obtain ⟨other, mended⟩ := present token isOne
    exact ⟨other, mended.accepts⟩

/-- The sample is one with a token that is accepted. -/
theorem acceptOr {kinds : List TokenKind} {branch : Option Token → Parser β} {token : Token}
    (absent : Mends follow bound (branch none))
    (present : ∀ token, token.kind ∈ kinds →
      ∃ other, Mended follow (bound - 1) other (branch (some token)))
    (isOne : token.kind ∈ kinds) (accepts : Accepts follow sample (branch (some token))) :
    Mended follow bound (token :: sample) (accept kinds >>= branch) := by
  refine ⟨.acceptThen absent (fun token isOne => ?_) (fun token isOne => ?_),
    .accept isOne accepts⟩
  · obtain ⟨_, mended⟩ := present token isOne
    exact mended.mends
  · obtain ⟨other, mended⟩ := present token isOne
    exact ⟨other, mended.accepts⟩

/-- What may follow is no token that would be accepted. -/
theorem optionally {kinds : List TokenKind} {branch : Option Token → Parser β}
    (continues : ∀ kind ∈ kinds, kind ∈ continuing)
    (absent : Mended Closing bound [] (branch none))
    (present : ∀ token, token.kind ∈ kinds →
      ∃ other, Mended Closing (bound - 1) other (branch (some token))) :
    Mended Closing bound [] (accept kinds >>= branch) :=
  acceptThen absent (Closing.avoids continues) present

end Mended

namespace Completable

variable {follow early : List Token → Prop} {bound : Nat} {sample : List Token}
  {parser item : Parser α}

/-- A name, which is an expression. -/
abbrev aName : List Token := [finishing .identifier]

/-- What begins with a name begins with nothing else. -/
theorem startsWithName {kinds : List TokenKind} (isOther : TokenKind.identifier ∉ kinds)
    (others : List Token) :
    ∀ token ∈ (finishing .identifier :: others).head?, token.kind ∉ kinds := by
  intro token isHead
  obtain rfl : finishing .identifier = token := Option.some.inj isHead
  exact isOther

theorem below {smaller : Nat} (completable : Completable follow bound sample parser)
    (le : smaller ≤ bound) : Completable follow smaller sample parser :=
  ⟨completable.toMended.below le, completable.locally.below le⟩

/-- It can be completed in front of a token that has to be there. -/
theorem before (completable : Completable Closing bound sample parser) {kind : TokenKind}
    (closes : kind ∉ continuing) : Completable (AheadIs kind) bound sample parser :=
  ⟨completable.toMended.narrow fun _ => AheadIs.closing closes,
    completable.locally.narrow fun _ => AheadIs.closing closes⟩

theorem parameter (what : String) :
    Completable follow bound aName (expect .identifier what) := by
  have whole : Mended follow bound aName (expect .identifier what >>= Pure.pure) :=
    .expectThen fun token => .pure token
  rw [bind_pure] at whole
  exact ⟨whole, .expect _ what⟩

section Loops

/-- What a loop may go on with is not what follows it. -/
theorem ofLoop {goesOn : Token → Bool} {σ : Type} {round : (σ → Parser α) → σ → Parser α}
    {loop : (fuel : Nat) → σ → Parser α} (circles : Circles goesOn round loop) {state : σ}
    (mended : Mended follow bound sample
      (round (fun state => remaining >>= fun fuel => loop fuel state) state)) :
    Mended follow bound sample (remaining >>= fun fuel => loop fuel state) := by
  rw [congrFun circles.unfuelled state]
  exact mended

theorem itemsAfter {excess : SyntaxError} (mild : excess.endsStatement = false)
    (completable : Completable Closing bound aName item) (count : Nat) :
    Mended Closing bound [] (remaining >>= fun fuel => Parser.itemsAfter item excess fuel count) := by
  have circles := Circles.itemsAfter completable.locally.onward excess
  have ends : ∀ count, Accepts Closing []
      (remaining >>= fun fuel => Parser.itemsAfter item excess fuel count) := fun count =>
    .loop circles fun _ => .decline (.pure []) (Closing.avoids (by decide))
  induction bound generalizing count with
  | zero => exact ⟨.nothing, ends count⟩
  | succ bound induction =>
      have fewer := completable.below (Nat.le_succ bound)
      refine ofLoop circles (.optionally (by decide) (.pure []) fun comma _ => ⟨aName, ?_⟩)
      have oneMore : Mended Closing bound aName (item >>= fun next => do
          return next :: (← remaining >>= fun fuel =>
            Parser.itemsAfter item excess fuel (count + 1))) :=
        .andThen fewer fun next => (induction fewer (count + 1)).map
      dsimp only
      split
      · have noted : ∀ about, MendsOn Always (fun ahead => Below bound ahead ∧ ahead.head? = about)
            (complain about excess) := fun about => .complain about excess
        have silent : ∀ about, Accepts Always [] (complain about excess) :=
          fun about => .complain about excess
        refine ⟨MendsOn.lookThen fun about => ?_, .peek fun about =>
          (silent about).bind (fun _ => oneMore.accepts) fun _ _ => trivial⟩
        refine (noted about).bindOf aName (.complain about mild ?_) (fun _ => oneMore.mends)
          (fun _ => oneMore.accepts) (fun _ _ => trivial) ?_
        · rintro rfl ahead ⟨_, isNone⟩
          exact List.head?_eq_none_iff.1 isNone
        · rintro cursor _ middle ⟨few, _⟩ complained
          cases complained
          exact few
      · exact oneMore

theorem items {excess : SyntaxError} (mild : excess.endsStatement = false)
    (completable : Completable Closing bound aName item) (moves : Moves item) :
    Completable (AheadIs .rightParen) bound [] (Parser.items item excess) := by
  refine ⟨?_, .items mild completable.locally moves⟩
  rw [items_eq]
  refine ⟨.unlessAhead fun isAhead => ?_, .isAhead (.pure [])⟩
  cases isAhead with
  | true => exact .pure []
  | false =>
      have others : Mended Closing bound aName (item >>= fun first => do
          return first :: (← remaining >>= fun fuel => Parser.itemsAfter item excess fuel 1)) :=
        .andThen completable fun first => (itemsAfter mild completable 1).map
      exact others.mends.narrow fun _ => AheadIs.closing (by decide)

end Loops

section Expressions

variable {operand unary assigned nested : Parser (Expr Unit)}

theorem operatorsAfter {kinds : List TokenKind} {join : Expr Unit → Token → Expr Unit → Expr Unit}
    (continues : ∀ kind ∈ kinds, kind ∈ continuing)
    (completable : Completable Closing bound aName operand) (left : Expr Unit) :
    Mended Closing bound []
      (remaining >>= fun fuel => Parser.operatorsAfter operand kinds join fuel left) := by
  have circles := Circles.operatorsAfter completable.locally.onward kinds join
  induction bound generalizing left with
  | zero =>
      exact ⟨.nothing, .loop circles fun _ => .decline (.pure left) (Closing.avoids continues)⟩
  | succ bound induction =>
      have fewer := completable.below (Nat.le_succ bound)
      refine ofLoop circles ?_
      refine .optionally continues (.pure left) fun op _ => ⟨aName, ?_⟩
      exact .andThen fewer fun right => induction fewer (join left op right)

theorem leftAssociative {kinds : List TokenKind} {join : Expr Unit → Token → Expr Unit → Expr Unit}
    (continues : ∀ kind ∈ kinds, kind ∈ continuing)
    (completable : Completable Closing bound aName operand) :
    Completable Closing bound aName (Parser.leftAssociative operand kinds join) :=
  ⟨.andThen completable (operatorsAfter continues completable),
    .leftAssociative continues join completable.locally⟩

theorem disjunction (completable : Completable Closing bound aName unary) :
    Completable Closing bound aName (Parser.disjunction unary) := by
  have product : Completable Closing bound aName (Parser.product unary) :=
    leftAssociative (by decide) completable
  have sum : Completable Closing bound aName (Parser.sum unary) :=
    leftAssociative (by decide) product
  have comparison : Completable Closing bound aName (Parser.comparison unary) :=
    leftAssociative (by decide) sum
  have equality : Completable Closing bound aName (Parser.equality unary) :=
    leftAssociative (by decide) comparison
  have conjunction : Completable Closing bound aName (Parser.conjunction unary) :=
    leftAssociative (by decide) equality
  exact leftAssociative (by decide) conjunction

theorem assignment (unaryCompletable : Completable Closing bound aName unary)
    (assignedCompletable : Completable Closing (bound - 1) aName assigned) :
    Completable Closing bound aName (Parser.assignment unary assigned) := by
  refine ⟨.andThen (disjunction unaryCompletable) fun target => ?_,
    .assignment unaryCompletable.locally assignedCompletable.locally⟩
  refine .optionally (by decide) (.pure target) fun equals _ => ⟨aName, ?_⟩
  refine .andThen assignedCompletable fun value => ?_
  cases assignTo value target with
  | some expr => exact .pure expr
  | none => exact .map (.complain _ _)

theorem primary (completable : Completable Closing (bound - 1) aName nested) :
    Completable Closing bound aName (Parser.primary nested) := by
  refine ⟨.acceptOr (.fail _) (fun token _ => ?_) (by decide) (.pure _),
    .primary completable.locally⟩
  dsimp only
  split
  case h_3 =>
      refine ⟨finishing .dot :: aName, ?_⟩
      refine .expectThen fun dot => ?_
      exact .expectThen fun method => .pure _
  case h_6 =>
      refine ⟨aName ++ [finishing .rightParen], ?_⟩
      exact .thenExpect (completable.before (by decide)) fun inner closing => .pure _
  all_goals exact ⟨[], .pure _⟩

theorem callsAfter_accepts (nestedOnward : Onward nested) (callee : Expr Unit) :
    Accepts Closing [] (remaining >>= fun fuel => Parser.callsAfter nested fuel callee) := by
  have circles := Circles.callsAfter (Reads.items .tooManyArguments nestedOnward).onward
  refine .loop circles fun again => ?_
  exact .decline (.pure callee) (Closing.avoids (by decide))

theorem callsAfter (completable : Completable Closing (bound - 1) aName nested)
    (moves : Moves nested) (callee : Expr Unit) :
    Mended Closing bound [] (remaining >>= fun fuel => Parser.callsAfter nested fuel callee) := by
  have onward := completable.locally.onward
  induction bound generalizing callee with
  | zero => exact ⟨.nothing, callsAfter_accepts onward callee⟩
  | succ bound induction =>
      have again := induction (completable.below (Nat.sub_le _ _))
      have args : Completable (AheadIs .rightParen) bound []
          (Parser.items nested .tooManyArguments) := items rfl completable moves
      refine ofLoop (Circles.callsAfter (Reads.items _ onward).onward) ?_
      refine .optionally (by decide) (.pure callee) fun token _ => ?_
      dsimp only
      split
      · exact ⟨_, .thenExpect args fun found paren => again (.call callee paren found)⟩
      · exact ⟨_, .expectThen fun name => again (.get callee name)⟩

theorem call (completable : Completable Closing (bound - 1) aName nested) (moves : Moves nested) :
    Completable Closing bound aName (Parser.call nested) :=
  ⟨.andThen (primary completable) (callsAfter completable moves),
    .call completable.locally moves⟩

theorem prefixed (operandCompletable : Completable Closing (bound - 1) aName operand)
    (nestedCompletable : Completable Closing (bound - 1) aName nested) (moves : Moves nested) :
    Completable Closing bound aName (Parser.prefixed operand nested) := by
  refine ⟨.acceptThen (call nestedCompletable moves).toMended ?_ fun op _ => ⟨aName, ?_⟩,
    .prefixed operandCompletable.locally nestedCompletable.locally moves⟩
  · exact fun others _ => startsWithName (by decide) others
  · exact operandCompletable.toMended.map

end Expressions

end Completable

namespace Unlimited

open Completable (aName)

theorem unary_accepts : Accepts Closing aName unary := by
  rw [unary_eq]
  have named : Accepts Closing aName (primary expression) := .accept (by decide) (.pure _)
  have called : Accepts Closing aName (call expression) :=
    named.bind (Completable.callsAfter_accepts expression_reads.onward) fun _ => id
  exact called.decline fun others _ => Completable.startsWithName (by decide) others

theorem expression_accepts : Accepts Closing aName expression := by
  have unaryCompletable : Completable Closing 0 aName unary :=
    ⟨⟨.nothing, unary_accepts⟩, retraces_unary 0⟩
  rw [expression_eq]
  exact (Completable.disjunction unaryCompletable).accepts.bind
    (fun target => .decline (.pure target) (Closing.avoids (by decide))) fun _ => id

/-- By induction on the number of tokens: an operand stands after its operator, and whatever nests
stands after a token as well. -/
theorem completable (bound : Nat) :
    Completable Closing bound aName unary ∧ Completable Closing bound aName expression := by
  induction bound with
  | zero =>
      exact ⟨⟨⟨.nothing, unary_accepts⟩, retraces_unary 0⟩,
        ⟨⟨.nothing, expression_accepts⟩, retraces_expression 0⟩⟩
  | succ bound induction =>
      have unaryCompletable : Completable Closing (bound + 1) aName unary := by
        rw [unary_eq]
        exact .prefixed induction.1 induction.2 expression_moves
      refine ⟨unaryCompletable, ?_⟩
      rw [expression_eq]
      exact .assignment unaryCompletable induction.2

end Unlimited

end LoxLang.Parser
