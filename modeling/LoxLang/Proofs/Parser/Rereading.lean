import LoxLang.Parser
import LoxLang.Proofs.Parser.Reading
import LoxLang.Proofs.Parser.Yielding

/-!
# Reading the same in another text

A parser looks at most one token beyond those that it takes.  So what it reads without
complaint in one text it also reads in another one that goes on differently, as long as
that one token looks the same to it.
-/

namespace LoxLang.Parser

variable {α β : Type}

/-- Whether other tokens may stand where the rest of a text stood. -/
abbrev Outlook := (rest others : List Token) → Prop

/-- Whatever may stand there. -/
def Blind : Outlook := fun _ _ => True

/-- The same token is ahead, or none. -/
def SameAhead : Outlook := fun rest others => others.head? = rest.head?

/-- The same token is ahead, or none, or one that is no `else`. -/
def NoElse : Outlook := fun rest others =>
  others.head? = rest.head? ∨ ∀ token ∈ others.head?, token.kind ≠ .kwElse

theorem SameAhead.cons (token : Token) (rest others : List Token) :
    SameAhead (token :: rest) (token :: others) := rfl

theorem SameAhead.append (taken : List Token) {rest others : List Token}
    (same : SameAhead rest others) : SameAhead (taken ++ rest) (taken ++ others) := by
  cases taken with
  | nil => exact same
  | cons token more => rfl

theorem NoElse.append (taken : List Token) {rest others : List Token}
    (noElse : NoElse rest others) : NoElse (taken ++ rest) (taken ++ others) := by
  cases taken with
  | nil => exact noElse
  | cons token more => exact .inl rfl

/-- Tokens that an expression or a statement may be read from: they are some, and no `else` is the
first. -/
def Phrase (taken : List Token) : Prop :=
  ∃ token more, taken = token :: more ∧ token.kind ≠ .kwElse

theorem Phrase.append {taken : List Token} (phrase : Phrase taken) (later : List Token) :
    Phrase (taken ++ later) := by
  obtain ⟨token, more, rfl, notElse⟩ := phrase
  exact ⟨token, more ++ later, rfl, notElse⟩

/-- What the parser reads without complaint it reads in front of other tokens as well. -/
abbrev Rereads (outlook : Outlook) (parser : Parser α) : Prop :=
  Reads parser fun taken result rest =>
    ∀ others, outlook rest others → Yields False parser taken others result

/-- What it reads so is a phrase. -/
abbrev RereadsPhrase (outlook : Outlook) (parser : Parser α) : Prop :=
  Reads parser fun taken result rest =>
    Phrase taken ∧ ∀ others, outlook rest others → Yields False parser taken others result

/-- So it does with as much fuel as this, if that is as much as there are tokens, and then also
with any other amount that is as much as there are tokens. -/
abbrev RereadsWith (fuel : Nat) (loop : (fuel : Nat) → Parser α) : Prop :=
  Reads (loop fuel) fun taken result rest => (taken ++ rest).length ≤ fuel →
    ∀ others, SameAhead rest others → ∀ moreFuel, (taken ++ others).length ≤ moreFuel →
      Yields False (loop moreFuel) taken others result

namespace Rereads

variable {parser item : Parser α} {next : α → Parser β} {outlook early : Outlook}

theorem narrow (rereads : Rereads outlook parser)
    (implies : ∀ rest others, early rest others → outlook rest others) : Rereads early parser :=
  rereads.mono fun _ _ _ same others alike => same others (implies _ _ alike)

theorem pure (value : α) : Rereads outlook (Pure.pure value) :=
  Reads.pure fun _ _ _ => .refl _ _

theorem bind (first : Rereads early parser) (second : ∀ value, Rereads outlook (next value))
    (sees : ∀ taken rest others, outlook rest others → early (taken ++ rest) (taken ++ others)) :
    Rereads outlook (parser >>= next) := by
  refine Reads.bind first fun value left => (second value).mono ?_
  intro right result rest secondRereads firstRereads others alike
  exact (firstRereads _ (sees right rest others alike)).bind (secondRereads others alike)

/-- Neither part looks at more than the next token. -/
theorem andThen (first : Rereads SameAhead parser)
    (second : ∀ value, Rereads SameAhead (next value)) : Rereads SameAhead (parser >>= next) :=
  bind first second fun taken _ _ same => same.append taken

theorem map {make : α → β} (rereads : Rereads outlook parser) :
    Rereads outlook (do return make (← parser)) := by
  refine Reads.bind rereads fun value left => Reads.pure ?_
  intro rest valueRereads others alike
  rw [List.append_nil]
  rw [List.nil_append] at valueRereads
  exact (valueRereads others alike).map

theorem isAhead (kind : TokenKind) : Rereads SameAhead (Parser.isAhead kind) := by
  refine (Reads.isAhead kind).mono ?_
  rintro _ _ rest ⟨rfl, rfl⟩ others same
  rw [← show others.head? = rest.head? from same]
  exact .isAhead kind

theorem acceptThen {kinds : List TokenKind} {branch : Option Token → Parser β}
    (absent : Rereads SameAhead (branch none))
    (present : ∀ token, Rereads SameAhead (branch (some token))) :
    Rereads SameAhead (accept kinds >>= branch) := by
  refine Reads.acceptThen kinds (absent.mono ?_) fun token => (present token).mono ?_
  · intro taken result rest rereads unwanted others same
    refine .declineThen ?_ (rereads others same)
    rwa [show (taken ++ others).head? = (taken ++ rest).head? from same.append taken]
  · intro taken result rest rereads wanted others same
    exact .acceptThen wanted (rereads others same)

theorem expect (kind : TokenKind) (what : String) :
    Rereads Blind (Parser.expect kind what) := by
  refine (Reads.expect kind what).mono ?_
  rintro _ token rest ⟨rfl, same⟩ others _
  exact .expect same

theorem expectThen {kind : TokenKind} {what : String} {next : Token → Parser β}
    (second : ∀ token, Rereads outlook (next token)) :
    Rereads outlook (Parser.expect kind what >>= next) :=
  bind (expect kind what) second fun _ _ _ _ => trivial

/-- A token that has to be there is all that the part before it sees. -/
theorem thenExpect {kind : TokenKind} {what : String} {next : α → Token → Parser β}
    (first : Rereads SameAhead parser)
    (second : ∀ value token, Rereads outlook (next value token)) :
    Rereads outlook (parser >>= fun value => Parser.expect kind what >>= next value) := by
  refine Reads.bind first fun value left => ?_
  refine Reads.expectThen _ _ fun token => ?_
  apply (second value token).mono
  intro right result rest secondRereads isKind firstRereads others alike
  exact (firstRereads _ (SameAhead.cons token _ _)).bind
    (.expectThen isKind (secondRereads others alike))

/-- A loop gets as much fuel as there are tokens ahead. -/
theorem loop {loop : (fuel : Nat) → Parser α} (loops : ∀ fuel, RereadsWith fuel loop) :
    Rereads SameAhead (remaining >>= loop) := by
  refine Reads.bind Reads.remaining fun fuel none => (loops fuel).mono ?_
  rintro taken result rest rereads ⟨rfl, rfl⟩ others same
  exact .look .remaining (rereads (Nat.le_refl _) others same _ (Nat.le_refl _))

end Rereads

namespace RereadsWith

variable {parser item : Parser α} {fuel : Nat}

/-- The fuel is for what comes after the first step. -/
theorem andThen {next : (fuel : Nat) → α → Parser β} (first : Rereads SameAhead parser)
    (second : ∀ value, RereadsWith fuel fun fuel => next fuel value) :
    RereadsWith fuel fun fuel => parser >>= next fuel := by
  refine Reads.bind first fun value left => Reads.mono (second value) ?_
  intro right result rest secondRereads firstRereads few others same moreFuel enough
  rw [List.append_assoc, List.length_append] at few enough
  refine (firstRereads _ (same.append right)).bind ?_
  exact secondRereads (by omega) others same moreFuel (by omega)

theorem thenExpect {kind : TokenKind} {what : String} {next : (fuel : Nat) → α → Token → Parser β}
    (first : Rereads SameAhead parser)
    (second : ∀ value token, RereadsWith fuel fun fuel => next fuel value token) :
    RereadsWith fuel fun fuel =>
      parser >>= fun value => Parser.expect kind what >>= next fuel value := by
  have expected : Rereads SameAhead (Parser.expect kind what) :=
    (Rereads.expect kind what).narrow fun _ _ _ => trivial
  refine andThen first fun value => ?_
  exact andThen expected (second value)

theorem map {loop : (fuel : Nat) → Parser α} {make : α → β} (rereads : RereadsWith fuel loop) :
    RereadsWith fuel fun fuel => do return make (← loop fuel) := by
  refine Reads.bind rereads fun value left => Reads.pure ?_
  intro rest valueRereads few others same moreFuel enough
  rw [List.append_nil] at few enough ⊢
  exact (valueRereads few others same moreFuel enough).map

section Loops

/- A loop that goes round as long as tokens of some kinds are ahead, and then stops with a value. -/
variable {loop : (fuel : Nat) → Parser α} {branch : (fuel : Nat) → Option Token → Parser α}
  {kinds : List TokenKind} {stop : α} (zero : loop 0 = pure stop)
  (succ : ∀ fuel, loop (fuel + 1) = accept kinds >>= branch fuel)
  (absent : ∀ fuel, branch fuel none = pure stop)
include zero succ absent

/-- It stops at any other token, with any amount of fuel. -/
theorem stops {others : List Token} (unwanted : ∀ token ∈ others.head?, token.kind ∉ kinds) :
    Yields False (loop fuel) [] others stop := by
  cases fuel with
  | zero => exact zero ▸ .refl _ _
  | succ fuel =>
      rw [succ]
      exact .declineThen unwanted (absent fuel ▸ .refl _ _)

theorem noFuel : RereadsWith 0 loop := by
  change Reads (loop 0) _
  rw [zero]
  refine Reads.pure fun rest few others same moreFuel _ => ?_
  obtain rfl : rest = [] := List.eq_nil_of_length_eq_zero (Nat.le_zero.1 few)
  obtain rfl : others = [] := List.head?_eq_none_iff.1 same
  exact stops zero succ absent nofun

theorem acceptThen (present : ∀ token, RereadsWith fuel fun fuel => branch fuel (some token)) :
    RereadsWith (fuel + 1) loop := by
  change Reads (loop (fuel + 1)) _
  rw [succ]
  refine Reads.acceptThen kinds ?_ fun token => (present token).mono ?_
  · rw [absent]
    refine Reads.pure fun rest unwanted few others same moreFuel _ => ?_
    refine stops zero succ absent ?_
    rwa [show others.head? = rest.head? from same]
  · intro taken result rest rereads wanted few others same moreFuel enough
    obtain ⟨less, rfl⟩ : ∃ less, moreFuel = less + 1 :=
      Nat.exists_eq_add_of_le' (Nat.le_trans (Nat.succ_pos _) enough)
    rw [succ]
    exact .acceptThen wanted (rereads (Nat.le_of_succ_le_succ few) others same less
      (Nat.le_of_succ_le_succ enough))

end Loops

theorem itemsAfter (excess : SyntaxError) (itemRereads : Rereads SameAhead item)
    (fuel count : Nat) :
    RereadsWith fuel fun fuel => Parser.itemsAfter item excess fuel count := by
  induction fuel generalizing count with
  | zero => exact noFuel rfl (fun _ => rfl) fun _ => rfl
  | succ fuel induction =>
      refine acceptThen rfl (fun _ => rfl) (fun _ => rfl) fun comma => ?_
      have oneMore : RereadsWith fuel fun fuel => do
          let next ← item
          let rest ← Parser.itemsAfter item excess fuel (count + 1)
          return next :: rest :=
        andThen itemRereads fun first => (induction (count + 1)).map
      by_cases full : itemLimit ≤ count
      · simp only [full, if_true]
        refine Reads.bind Reads.peek fun about none => ?_
        refine Reads.bind (Reads.complain about excess) fun _ none' => oneMore.mono ?_
        exact fun _ _ _ _ impossible => impossible.elim
      · simp only [full, if_false]
        exact oneMore

section Expressions

variable {operand unary assigned nested : Parser (Expr Unit)} {kinds : List TokenKind}
  {join : Expr Unit → Token → Expr Unit → Expr Unit}

theorem operatorsAfter (operandRereads : Rereads SameAhead operand) (fuel : Nat)
    (left : Expr Unit) :
    RereadsWith fuel fun fuel => Parser.operatorsAfter operand kinds join fuel left := by
  induction fuel generalizing left with
  | zero => exact noFuel rfl (fun _ => rfl) fun _ => rfl
  | succ fuel induction =>
      refine acceptThen rfl (fun _ => rfl) (fun _ => rfl) fun op => ?_
      exact andThen operandRereads fun right => induction _

theorem callsAfter (argsReread : Rereads SameAhead (Parser.items nested .tooManyArguments))
    (fuel : Nat) (callee : Expr Unit) :
    RereadsWith fuel fun fuel => Parser.callsAfter nested fuel callee := by
  induction fuel generalizing callee with
  | zero => exact noFuel rfl (fun _ => rfl) fun _ => rfl
  | succ fuel induction =>
      refine acceptThen rfl (fun _ => rfl) (fun _ => rfl) fun token => ?_
      by_cases opens : token.kind = .leftParen
      · simp only [opens, if_true]
        exact thenExpect argsReread fun args paren => induction _
      · simp only [opens, if_false]
        exact andThen ((Rereads.expect _ _).narrow fun _ _ _ => trivial) fun name => induction _

end Expressions

end RereadsWith

namespace Rereads

variable {item : Parser α}

theorem items (excess : SyntaxError) (itemRereads : Rereads SameAhead item) :
    Rereads SameAhead (Parser.items item excess) := by
  refine andThen (isAhead .rightParen) fun closes => ?_
  cases closes with
  | true => exact pure _
  | false =>
      refine andThen itemRereads fun first => ?_
      have rest : Rereads SameAhead
          (remaining >>= fun fuel => Parser.itemsAfter item excess fuel 1) :=
        loop fun fuel => .itemsAfter excess itemRereads fuel 1
      have together : Rereads SameAhead _ := andThen rest fun others => pure (first :: others)
      rwa [bind_assoc] at together

end Rereads

namespace RereadsPhrase

variable {parser : Parser α} {next : α → Parser β} {outlook early : Outlook}

theorem rereads (phrase : RereadsPhrase outlook parser) : Rereads outlook parser :=
  phrase.mono fun _ _ _ => And.right

theorem bind (first : RereadsPhrase early parser) (second : ∀ value, Rereads outlook (next value))
    (sees : ∀ taken rest others, outlook rest others → early (taken ++ rest) (taken ++ others)) :
    RereadsPhrase outlook (parser >>= next) := by
  refine Reads.bind first fun value left => (second value).mono ?_
  rintro right result rest secondRereads ⟨phrase, firstRereads⟩
  refine ⟨phrase.append right, fun others alike => ?_⟩
  exact (firstRereads _ (sees right rest others alike)).bind (secondRereads others alike)

theorem andThen (first : RereadsPhrase SameAhead parser)
    (second : ∀ value, Rereads SameAhead (next value)) :
    RereadsPhrase SameAhead (parser >>= next) :=
  bind first second fun taken _ _ same => same.append taken

/-- The phrase goes on after a token of a wanted kind, or is one without such a token. -/
theorem acceptThen {kinds : List TokenKind} {branch : Option Token → Parser β}
    (noElse : .kwElse ∉ kinds) (absent : RereadsPhrase outlook (branch none))
    (present : ∀ token, Rereads outlook (branch (some token))) :
    RereadsPhrase outlook (accept kinds >>= branch) := by
  refine Reads.acceptThen kinds (absent.mono ?_) fun token => (present token).mono ?_
  · rintro taken result rest ⟨⟨token, more, rfl, notElse⟩, rereads⟩ unwanted
    exact ⟨⟨token, more, rfl, notElse⟩, fun others alike =>
      .declineThen unwanted (rereads others alike)⟩
  · intro taken result rest rereads wanted
    refine ⟨⟨token, taken, rfl, fun isElse => noElse (isElse ▸ wanted)⟩, fun others alike => ?_⟩
    exact .acceptThen wanted (rereads others alike)

theorem expectThen {kind : TokenKind} {what : String} {next : Token → Parser β}
    (notElse : kind ≠ .kwElse) (second : ∀ token, Rereads outlook (next token)) :
    RereadsPhrase outlook (Parser.expect kind what >>= next) := by
  refine Reads.expectThen kind what fun token => (second token).mono ?_
  intro taken result rest rereads isKind
  refine ⟨⟨token, taken, rfl, isKind ▸ notElse⟩, fun others alike => ?_⟩
  exact .expectThen isKind (rereads others alike)

theorem thenExpect {kind : TokenKind} {what : String} {next : α → Token → Parser β}
    (first : RereadsPhrase SameAhead parser)
    (second : ∀ value token, Rereads outlook (next value token)) :
    RereadsPhrase outlook (parser >>= fun value => Parser.expect kind what >>= next value) := by
  refine Reads.bind first fun value left => ?_
  refine Reads.expectThen _ _ fun token => ?_
  apply (second value token).mono
  rintro right result rest secondRereads isKind ⟨phrase, firstRereads⟩
  refine ⟨phrase.append _, fun others alike => ?_⟩
  exact (firstRereads _ (SameAhead.cons token _ _)).bind
    (.expectThen isKind (secondRereads others alike))

theorem recovering {S : Type} {statement : Parser (Stmt S)}
    (phrase : RereadsPhrase outlook statement) :
    RereadsPhrase outlook (Parser.recovering statement) :=
  (Reads.recovering phrase).mono fun _ _ _ ⟨phrase, same⟩ =>
    ⟨phrase, fun others alike => .recovering (same others alike)⟩

section Expressions

variable {operand unary assigned nested : Parser (Expr Unit)} {kinds : List TokenKind}
  {join : Expr Unit → Token → Expr Unit → Expr Unit}

theorem leftAssociative (operandRereads : RereadsPhrase SameAhead operand) :
    RereadsPhrase SameAhead (Parser.leftAssociative operand kinds join) :=
  andThen operandRereads fun first =>
    .loop fun fuel => .operatorsAfter operandRereads.rereads fuel first

theorem product (unaryRereads : RereadsPhrase SameAhead unary) :
    RereadsPhrase SameAhead (Parser.product unary) :=
  leftAssociative unaryRereads

theorem sum (unaryRereads : RereadsPhrase SameAhead unary) :
    RereadsPhrase SameAhead (Parser.sum unary) :=
  leftAssociative (product unaryRereads)

theorem comparison (unaryRereads : RereadsPhrase SameAhead unary) :
    RereadsPhrase SameAhead (Parser.comparison unary) :=
  leftAssociative (sum unaryRereads)

theorem equality (unaryRereads : RereadsPhrase SameAhead unary) :
    RereadsPhrase SameAhead (Parser.equality unary) :=
  leftAssociative (comparison unaryRereads)

theorem conjunction (unaryRereads : RereadsPhrase SameAhead unary) :
    RereadsPhrase SameAhead (Parser.conjunction unary) :=
  leftAssociative (equality unaryRereads)

theorem disjunction (unaryRereads : RereadsPhrase SameAhead unary) :
    RereadsPhrase SameAhead (Parser.disjunction unary) :=
  leftAssociative (conjunction unaryRereads)

theorem assignment (unaryRereads : RereadsPhrase SameAhead unary)
    (assignedRereads : RereadsPhrase SameAhead assigned) :
    RereadsPhrase SameAhead (Parser.assignment unary assigned) := by
  refine andThen (disjunction unaryRereads) fun target => ?_
  refine .acceptThen (.pure target) fun equals => ?_
  refine .andThen assignedRereads.rereads fun value => ?_
  cases assignTo value target with
  | some expr => exact .pure expr
  | none =>
      refine Reads.bind (Reads.complain _ _) fun _ none => Reads.pure ?_
      exact fun _ impossible => impossible.elim

theorem primary (nestedRereads : RereadsPhrase SameAhead nested) :
    RereadsPhrase SameAhead (Parser.primary nested) := by
  refine acceptThen (by decide) (Reads.fail _ _) fun token => ?_
  dsimp only
  split
  case h_3 =>
      refine .expectThen fun dot => ?_
      exact .expectThen fun method => .pure _
  case h_6 => exact .thenExpect nestedRereads.rereads fun inner closing => .pure _
  all_goals exact .pure _

theorem call (nestedRereads : RereadsPhrase SameAhead nested) :
    RereadsPhrase SameAhead (Parser.call nested) :=
  andThen (primary nestedRereads) fun callee =>
    .loop fun fuel => .callsAfter (.items .tooManyArguments nestedRereads.rereads) fuel callee

theorem prefixed (operandRereads : RereadsPhrase SameAhead operand)
    (nestedRereads : RereadsPhrase SameAhead nested) :
    RereadsPhrase SameAhead (Parser.prefixed operand nested) :=
  acceptThen (by decide) (call nestedRereads) fun _ => operandRereads.rereads.map

mutual

theorem expressionAt (depth : Nat) : RereadsPhrase SameAhead (Parser.expressionAt depth) := by
  cases depth with
  | zero => exact Reads.tooDeep _
  | succ depth => exact assignment (unaryAt depth) (expressionAt depth)

theorem unaryAt (depth : Nat) : RereadsPhrase SameAhead (Parser.unaryAt depth) := by
  cases depth with
  | zero => exact Reads.tooDeep _
  | succ depth => exact prefixed (unaryAt depth) (expressionAt depth)

end

end Expressions

end RereadsPhrase

end LoxLang.Parser
