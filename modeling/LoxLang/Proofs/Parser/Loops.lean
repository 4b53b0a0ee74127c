import LoxLang.Proofs.Parser.Progress

/-!
# Loops that never run out of fuel

A loop gets as much fuel as there are tokens ahead.  Each round takes a token, so
more fuel would make no difference: the loop goes round until nothing is ahead that
it would go on with, and without fuel it could be defined by its own round.
-/

namespace LoxLang.Parser

variable {α β σ : Type}

/-- Two parsers do the same when fewer than so many tokens are ahead. -/
def AgreeBelow (bound : Nat) (parser twin : Parser α) : Prop :=
  ∀ cursor : Cursor, cursor.ahead.length < bound → parser cursor = twin cursor

/-- Where the parser yields a result on fewer than so many tokens, nothing is ahead that it would
go on with. -/
def StopsBelow (goesOn : Token → Bool) (bound : Nat) (parser : Parser α) : Prop :=
  ∀ cursor result after, cursor.ahead.length < bound → parser cursor = .ok result after →
    after.ahead.head?.any goesOn = false

/-- The first step of two sequences is the same; where it leads, the second steps do the same. -/
theorem bind_congr_ok {first : Parser α} {next other : α → Parser β} {cursor : Cursor}
    (same : ∀ value middle, first cursor = .ok value middle →
      next value middle = other value middle) :
    (first >>= next) cursor = (first >>= other) cursor := by
  cases outcome : first cursor with
  | ok value middle => rw [bind_of_ok outcome, bind_of_ok outcome, same value middle outcome]
  | error halt middle => rw [bind_of_error outcome, bind_of_error outcome]

namespace AgreeBelow

variable {bound : Nat} {parser twin : Parser α} {next other : α → Parser β}

theorem bind (onward : Onward parser)
    (second : ∀ value, AgreeBelow bound (next value) (other value)) :
    AgreeBelow bound (parser >>= next) (parser >>= other) :=
  fun _ few => bind_congr_ok fun value middle succeeded =>
    second value middle (Nat.lt_of_le_of_lt (onward.length_le succeeded) few)

/-- The twins differ only after a token. -/
theorem acceptThen {kinds : List TokenKind} {branch otherBranch : Option Token → Parser β}
    (absent : branch none = otherBranch none)
    (present : ∀ token, AgreeBelow bound (branch (some token)) (otherBranch (some token))) :
    AgreeBelow (bound + 1) (accept kinds >>= branch) (accept kinds >>= otherBranch) := by
  intro cursor few
  refine bind_congr_ok fun found middle accepted => ?_
  rcases accept_eq_ok accepted with ⟨token, rfl, _, ahead, _⟩ | ⟨rfl, _, _⟩
  · refine present token _ ?_
    rw [ahead, List.length_cons] at few
    exact Nat.lt_of_succ_lt_succ few
  · rw [absent]

theorem map {make : α → β} (agree : AgreeBelow bound parser twin) :
    AgreeBelow bound (do return make (← parser)) (do return make (← twin)) := by
  intro cursor few
  show EStateM.bind parser _ cursor = EStateM.bind twin _ cursor
  unfold EStateM.bind
  rw [agree cursor few]

end AgreeBelow

namespace StopsBelow

variable {goesOn : Token → Bool} {bound : Nat} {parser : Parser α} {next : α → Parser β}

theorem bind (onward : Onward parser) (second : ∀ value, StopsBelow goesOn bound (next value)) :
    StopsBelow goesOn bound (parser >>= next) := by
  intro cursor result after few succeeded
  obtain ⟨value, middle, firstSucceeded, nextSucceeded⟩ := bind_eq_ok.1 succeeded
  exact second value middle result after
    (Nat.lt_of_le_of_lt (onward.length_le firstSucceeded) few) nextSucceeded

theorem map {make : α → β} (stops : StopsBelow goesOn bound parser) :
    StopsBelow goesOn bound (do return make (← parser)) := by
  intro cursor result after few succeeded
  obtain ⟨value, middle, firstSucceeded, returned⟩ := bind_eq_ok.1 succeeded
  cases returned
  exact stops cursor value after few firstSucceeded

theorem acceptThen {kinds : List TokenKind} {branch : Option Token → Parser β} {stop : β}
    (absent : branch none = pure stop)
    (present : ∀ token, StopsBelow (·.kind ∈ kinds) bound (branch (some token))) :
    StopsBelow (·.kind ∈ kinds) (bound + 1) (accept kinds >>= branch) := by
  intro cursor result after few succeeded
  obtain ⟨found, middle, accepted, goesOn⟩ := bind_eq_ok.1 succeeded
  rcases accept_eq_ok accepted with ⟨token, rfl, _, ahead, _⟩ | ⟨rfl, rfl, unwanted⟩
  · refine present token _ result after ?_ goesOn
    rw [ahead, List.length_cons] at few
    exact Nat.lt_of_succ_lt_succ few
  · rw [absent] at goesOn
    cases goesOn
    cases ahead : after.ahead with
    | nil => rfl
    | cons token rest => simpa [ahead] using unwanted

end StopsBelow

/-- With at least as much fuel as there are tokens ahead the loop does the same as with any more,
and where it ends, nothing is ahead that it would go on with. -/
structure Settles (goesOn : Token → Bool) (loop : (fuel : Nat) → Parser α) : Prop where
  same : ∀ cursor fuel more, cursor.ahead.length ≤ fuel → cursor.ahead.length ≤ more →
    loop more cursor = loop fuel cursor
  stops : ∀ cursor fuel result after, cursor.ahead.length ≤ fuel →
    loop fuel cursor = .ok result after → after.ahead.head?.any goesOn = false

/-- A loop that goes round from one state to the next, as long as there is a token to go on with
and fuel is left.  A round gets the rest of the loop to go on with. -/
structure Circles (goesOn : Token → Bool) (round : (again : σ → Parser α) → σ → Parser α)
    (loop : (fuel : Nat) → σ → Parser α) : Prop where
  /-- At the end of the text there is no other round. -/
  ends : ∀ again state complaints,
    round again state ⟨[], complaints⟩ = loop 0 state ⟨[], complaints⟩
  goesRound : ∀ fuel state, loop (fuel + 1) state = round (loop fuel) state
  /-- A round takes a token before it goes on. -/
  agrees : ∀ bound again twin, (∀ state, AgreeBelow bound (again state) (twin state)) →
    ∀ state, AgreeBelow (bound + 1) (round again state) (round twin state)
  stops : ∀ bound again, (∀ state, StopsBelow goesOn bound (again state)) →
    ∀ state, StopsBelow goesOn (bound + 1) (round again state)

namespace Circles

variable {goesOn : Token → Bool} {round : (σ → Parser α) → σ → Parser α}
  {loop : (fuel : Nat) → σ → Parser α} (circles : Circles goesOn round loop)
include circles

theorem loop_eq_loop {fuel more : Nat} {cursor : Cursor} (enough : cursor.ahead.length ≤ fuel)
    (alsoEnough : cursor.ahead.length ≤ more) (state : σ) :
    loop more state cursor = loop fuel state cursor := by
  induction fuel generalizing more cursor state with
  | zero =>
      obtain ⟨ahead, complaints⟩ := cursor
      obtain rfl : ahead = [] := List.eq_nil_of_length_eq_zero (Nat.le_zero.1 enough)
      cases more with
      | zero => rfl
      | succ more => rw [circles.goesRound, circles.ends]
  | succ fuel induction =>
      cases more with
      | zero =>
          obtain ⟨ahead, complaints⟩ := cursor
          obtain rfl : ahead = [] := List.eq_nil_of_length_eq_zero (Nat.le_zero.1 alsoEnough)
          rw [circles.goesRound, circles.ends]
      | succ more =>
          rw [circles.goesRound, circles.goesRound]
          refine circles.agrees cursor.ahead.length _ _ ?_ state cursor (Nat.lt_succ_self _)
          intro next middle fewer
          exact induction (by omega) (by omega) next

/-- Without fuel the loop is its own round. -/
theorem unfuelled :
    (fun state => remaining >>= fun fuel => loop fuel state) =
      round fun state => remaining >>= fun fuel => loop fuel state := by
  funext state cursor
  have entered : (remaining >>= fun fuel => loop fuel state) cursor =
      loop cursor.ahead.length state cursor := bind_of_ok rfl
  rw [entered]
  cases length : cursor.ahead.length with
  | zero =>
      obtain ⟨ahead, complaints⟩ := cursor
      obtain rfl : ahead = [] := List.eq_nil_of_length_eq_zero length
      rw [circles.ends]
  | succ fewer =>
      rw [circles.goesRound]
      refine circles.agrees (fewer + 1) _ _ ?_ state cursor (by omega)
      intro next middle fewest
      have again : (remaining >>= fun fuel => loop fuel next) middle =
          loop middle.ahead.length next middle := bind_of_ok rfl
      rw [again]
      exact (circles.loop_eq_loop (Nat.le_refl _) (by omega) next)

theorem stopsBelow (fuel : Nat) (state : σ) : StopsBelow goesOn (fuel + 1) (loop fuel state) := by
  induction fuel generalizing state with
  | zero =>
      rintro ⟨ahead, complaints⟩ result after few succeeded
      obtain rfl : ahead = [] := List.eq_nil_of_length_eq_zero (Nat.lt_one_iff.1 few)
      have nothing : ∀ next : σ, StopsBelow goesOn 0 (loop 0 next) :=
        fun _ _ _ _ impossible => absurd impossible (Nat.not_lt_zero _)
      refine circles.stops 0 (loop 0) nothing state _ result after few ?_
      rw [circles.ends, succeeded]
  | succ fuel induction =>
      rw [circles.goesRound]
      exact circles.stops (fuel + 1) _ induction state

theorem settles (state : σ) : Settles goesOn fun fuel => loop fuel state where
  same _ _ _ enough alsoEnough := circles.loop_eq_loop enough alsoEnough state
  stops cursor fuel result after enough :=
    circles.stopsBelow fuel state cursor result after (Nat.lt_succ_of_le enough)

end Circles

section Rounds

variable {item : Parser α} {wanted : Token → Bool}

/-- Another item, if a wanted token is ahead. -/
def manyRound (wanted : Token → Bool) (item : Parser α) (again : Unit → Parser (List α)) :
    Unit → Parser (List α) := fun _ => do
  if (← peek).any wanted then
    let first ← item
    let rest ← again ()
    return first :: rest
  else
    return []

theorem Circles.many (advances : Advances item) :
    Circles wanted (manyRound wanted item) fun fuel _ => Parser.many wanted item fuel where
  ends _ _ _ := rfl
  goesRound _ _ := rfl
  agrees bound again twin agree _ := by
    intro cursor few
    refine bind_congr_ok fun ahead middle peeked => ?_
    cases peeked
    by_cases goesOn : cursor.ahead.head?.any wanted = true
    · simp only [goesOn, if_true]
      refine bind_congr_ok fun first later succeeded => ?_
      exact (agree ()).map later (by
        have := advances _ _ _ succeeded (by intro atEnd; simp [atEnd] at goesOn)
        omega)
    · simp only [goesOn]
      rfl
  stops bound again stops _ := by
    intro cursor results after few succeeded
    obtain ⟨ahead, middle, peeked, next⟩ := bind_eq_ok.1 succeeded
    cases peeked
    by_cases goesOn : cursor.ahead.head?.any wanted = true
    · simp only [goesOn, if_true] at next
      obtain ⟨first, later, itemSucceeded, restSucceeded⟩ := bind_eq_ok.1 next
      exact (stops ()).map later results after (by
        have := advances _ _ _ itemSucceeded (by intro atEnd; simp [atEnd] at goesOn)
        omega) restSucceeded
    · simp only [goesOn] at next
      cases next
      simpa using goesOn

/-- Another comma and the item after it, if there is one. -/
def itemsRound (item : Parser α) (excess : SyntaxError) (again : Nat → Parser (List α))
    (count : Nat) : Parser (List α) := do
  match ← accept [.comma] with
  | none => return []
  | some _ =>
      if itemLimit ≤ count then complain (← peek) excess
      let next ← item
      let rest ← again (count + 1)
      return next :: rest

theorem Circles.itemsAfter (onward : Onward item) (excess : SyntaxError) :
    Circles (·.kind ∈ [TokenKind.comma]) (itemsRound item excess)
      (Parser.itemsAfter item excess) where
  ends _ _ _ := rfl
  goesRound _ _ := rfl
  agrees bound again twin agree count := by
    refine AgreeBelow.acceptThen rfl fun _ => ?_
    have oneMore : AgreeBelow bound
        (item >>= fun next => do return next :: (← again (count + 1)))
        (item >>= fun next => do return next :: (← twin (count + 1))) :=
      .bind onward fun next => (agree (count + 1)).map
    dsimp only
    split
    · refine .bind Reads.peek.onward fun about => ?_
      exact .bind (Reads.complain about excess).onward fun _ => oneMore
    · exact oneMore
  stops bound again stops count := by
    refine StopsBelow.acceptThen rfl fun _ => ?_
    have oneMore : StopsBelow (·.kind ∈ [TokenKind.comma]) bound
        (item >>= fun next => do return next :: (← again (count + 1))) :=
      .bind onward fun next => (stops (count + 1)).map
    dsimp only
    split
    · refine .bind Reads.peek.onward fun about => ?_
      exact .bind (Reads.complain about excess).onward fun _ => oneMore
    · exact oneMore

/-- Another operator and its operand, if there is one. -/
def operatorsRound (operand : Parser (Expr Unit)) (kinds : List TokenKind)
    (join : Expr Unit → Token → Expr Unit → Expr Unit) (again : Expr Unit → Parser (Expr Unit))
    (left : Expr Unit) : Parser (Expr Unit) := do
  match ← accept kinds with
  | none => return left
  | some op =>
      let right ← operand
      again (join left op right)

theorem Circles.operatorsAfter {operand : Parser (Expr Unit)} (onward : Onward operand)
    (kinds : List TokenKind) (join : Expr Unit → Token → Expr Unit → Expr Unit) :
    Circles (·.kind ∈ kinds) (operatorsRound operand kinds join)
      (Parser.operatorsAfter operand kinds join) where
  ends _ _ _ := rfl
  goesRound _ _ := rfl
  agrees _ _ _ agree left := by
    refine AgreeBelow.acceptThen rfl fun op => ?_
    exact .bind onward fun right => agree (join left op right)
  stops _ _ stops left := by
    refine StopsBelow.acceptThen rfl fun op => ?_
    exact .bind onward fun right => stops (join left op right)

/-- Another call or property, if there is one. -/
def callsRound (nested : Parser (Expr Unit)) (again : Expr Unit → Parser (Expr Unit))
    (callee : Expr Unit) : Parser (Expr Unit) := do
  match ← accept [.leftParen, .dot] with
  | none => return callee
  | some token =>
      if token.kind = .leftParen then
        let args ← items nested .tooManyArguments
        let paren ← expect .rightParen "')' after arguments"
        again (.call callee paren args)
      else
        let name ← expect .identifier "property name after '.'"
        again (.get callee name)

theorem Circles.callsAfter {nested : Parser (Expr Unit)}
    (argsOnward : Onward (items nested .tooManyArguments)) :
    Circles (·.kind ∈ [TokenKind.leftParen, .dot]) (callsRound nested)
      (Parser.callsAfter nested) where
  ends _ _ _ := rfl
  goesRound _ _ := rfl
  agrees _ _ _ agree callee := by
    refine AgreeBelow.acceptThen rfl fun token => ?_
    dsimp only
    split
    · refine .bind argsOnward fun args => ?_
      exact .bind (Reads.expect _ _).onward fun paren => agree (.call callee paren args)
    · exact .bind (Reads.expect _ _).onward fun name => agree (.get callee name)
  stops _ _ stops callee := by
    refine StopsBelow.acceptThen rfl fun token => ?_
    dsimp only
    split
    · refine .bind argsOnward fun args => ?_
      exact .bind (Reads.expect _ _).onward fun paren => stops (.call callee paren args)
    · exact .bind (Reads.expect _ _).onward fun name => stops (.get callee name)

end Rounds

/-- Declarations up to a closing brace. -/
abbrev inBraces (item : Parser α) : Parser (List α) :=
  remaining >>= fun fuel => many (·.kind ≠ .rightBrace) item fuel

theorem items_eq (item : Parser α) (excess : SyntaxError) :
    items item excess = isAhead .rightParen >>= fun closes =>
      if closes then pure [] else item >>= fun first => do
        return first :: (← remaining >>= fun fuel => itemsAfter item excess fuel 1) := by
  unfold items
  simp only [bind_assoc]

theorem blockRest_eq (inner : Parser (Stmt Unit)) :
    blockRest inner = inBraces inner >>= fun body =>
      expect .rightBrace "'\x7d' after block" >>= fun _ => pure body := by
  unfold blockRest
  rw [bind_assoc]

theorem classRest_eq (inner : Parser (Stmt Unit)) :
    classRest inner = expect .identifier "class name" >>= fun name =>
      superclass? >>= fun superclass => expect .leftBrace "'\x7b' before class body" >>= fun _ =>
        inBraces (functionRest inner "method") >>= fun methods =>
          expect .rightBrace "'\x7d' after class body" >>= fun _ =>
            pure (.class name superclass methods) := by
  unfold classRest
  simp only [bind_assoc]

end LoxLang.Parser
