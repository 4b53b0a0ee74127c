import LoxLang.Proofs.Parser.Rereading
import LoxLang.Proofs.Parser.StatementReading

/-!
# Reading the same statements in another text

Only a conditional looks beyond its end, for an `else`.  So a text that is read without
complaint is read in front of other statements as it is by itself, for these never begin with
an `else`.
-/

namespace LoxLang

namespace Parser

variable {α β γ : Type} {outlook : Outlook} {item : Parser α} {wanted : Token → Bool}
  {expression : Parser (Expr Unit)} {nested inner : Parser (Stmt Unit)}

theorem LeadsTo.andThen {parser next : Parser α} {tokens rest : List Token} {mayHalt : Prop}
    (leads : LeadsTo mayHalt parser tokens rest next) (step : α → Parser β) :
    LeadsTo mayHalt (parser >>= step) tokens rest (next >>= step) := by
  intro complaints
  change EStateM.bind parser step _ = EStateM.bind next step _ ∨
    mayHalt ∧ ∃ halted, EStateM.bind parser step _ = _
  unfold EStateM.bind
  rcases leads complaints with same | ⟨may, halted, halts⟩
  · rw [same]
    exact .inl rfl
  · rw [halts]
    exact .inr ⟨may, halted, rfl⟩

/-- Items read one after the other are read in front of other tokens as well.  There the parser
goes on with those tokens, and has enough fuel left for them. -/
theorem Reads.manyInFront (itemRereads : RereadsPhrase NoElse item) (fuel : Nat) :
    Reads (Parser.many wanted item fuel) fun taken results rest => (taken ++ rest).length ≤ fuel →
      rest.head?.any wanted = false ∧ (∀ token ∈ taken.head?, token.kind ≠ .kwElse) ∧
        ∀ others, NoElse rest others → ∀ moreFuel, (taken ++ others).length ≤ moreFuel →
          ∃ left, others.length ≤ left ∧ LeadsTo False (Parser.many wanted item moreFuel) taken
            others (do return results ++ (← Parser.many wanted item left)) := by
  have stop : ∀ others moreFuel, (([] : List Token) ++ others).length ≤ moreFuel →
      ∃ left, others.length ≤ left ∧ LeadsTo False (Parser.many wanted item moreFuel) [] others
        (do return [] ++ (← Parser.many wanted item left)) := by
    intro others moreFuel enough
    refine ⟨moreFuel, enough, ?_⟩
    simp only [List.nil_append, bind_pure]
    exact .refl _ _
  -- on the fuel in the one text: of that in the other one it is only known that it is enough
  induction fuel with
  | zero =>
      refine Reads.pure fun rest few => ?_
      obtain rfl : rest = [] := List.eq_nil_of_length_eq_zero (Nat.le_zero.1 few)
      exact ⟨rfl, nofun, fun others _ => stop others⟩
  | succ fuel induction =>
      refine Reads.bind Reads.peek fun ahead none => ?_
      by_cases goesOn : ahead.any wanted = true
      · simp only [goesOn, if_true]
        refine Reads.bind itemRereads fun first firstTaken => ?_
        refine Reads.bind induction fun results taken => Reads.pure fun rest => ?_
        rintro resultsReread ⟨⟨token, more, rfl, notElse⟩, firstRereads⟩ ⟨rfl, rfl⟩ few
        simp only [List.nil_append, List.append_nil, List.cons_append, List.length_cons,
          List.head?_cons] at *
        obtain ⟨ended, _, inFront⟩ := resultsReread (by simp at few ⊢; omega)
        refine ⟨ended, by simpa using notElse, fun others noElse moreFuel enough => ?_⟩
        obtain ⟨less, rfl⟩ : ∃ less, moreFuel = less + 1 :=
          Nat.exists_eq_add_of_le' (Nat.le_trans (Nat.succ_pos _) enough)
        obtain ⟨left, leftEnough, leads⟩ :=
          inFront others noElse less (by simp at enough ⊢; omega)
        refine ⟨left, leftEnough, .look .peek ?_⟩
        simp only [List.cons_append, List.head?_cons, goesOn, if_true]
        refine (firstRereads _ (noElse.append taken)).bind ?_
        have appended := leads.andThen fun rest => Pure.pure (first :: rest)
        simpa using appended
      · simp only [goesOn, if_false, Bool.false_eq_true]
        refine Reads.pure ?_
        rintro rest ⟨rfl, rfl⟩ few
        exact ⟨by simpa using goesOn, nofun, fun others _ => stop others⟩

/-- Where the next token ends the items in the one text, it ends them in the other. -/
theorem RereadsWith.many (itemRereads : RereadsPhrase NoElse item) (fuel : Nat) :
    RereadsWith fuel fun fuel => Parser.many wanted item fuel := by
  refine (Reads.manyInFront itemRereads fuel).mono ?_
  intro taken results rest reread few others same moreFuel enough
  obtain ⟨ended, _, inFront⟩ := reread few
  obtain ⟨left, _, leads⟩ := inFront others (.inl same) moreFuel enough
  rw [← show others.head? = rest.head? from same] at ended
  have stops : Yields False (Parser.many wanted item left) [] others [] := by
    cases left with
    | zero => exact .refl _ _
    | succ left =>
        refine .look .peek ?_
        simp only [List.nil_append, ended]
        exact .refl _ _
  have together := leads.trans (List.nil_append others ▸ stops.map)
  simpa using together

namespace Rereads

theorem braced {what : String} {next : List α → Token → Parser β}
    (itemRereads : RereadsPhrase NoElse item)
    (second : ∀ items brace, Rereads outlook (next items brace)) :
    Rereads outlook (do
      let items ← Parser.many (·.kind ≠ .rightBrace) item (← remaining)
      let brace ← Parser.expect .rightBrace what
      next items brace) := by
  have items : Rereads SameAhead
      (remaining >>= fun fuel => Parser.many (·.kind ≠ .rightBrace) item fuel) :=
    loop fun fuel => .many itemRereads fuel
  have closed : Rereads outlook
      (_ >>= fun items => Parser.expect .rightBrace what >>= next items) :=
    thenExpect items second
  rwa [bind_assoc] at closed

/-- A token that has to be there is all that two parts before it see. -/
theorem andThenExpect {parser : Parser α} {kind : TokenKind} {what : String}
    {middle : α → Parser γ} {next : α → γ → Token → Parser β} (first : Rereads SameAhead parser)
    (second : ∀ value, Rereads SameAhead (middle value))
    (third : ∀ value between token, Rereads outlook (next value between token)) :
    Rereads outlook (parser >>= fun value => middle value >>= fun between =>
      Parser.expect kind what >>= next value between) := by
  have both : Rereads SameAhead (do
      let value ← parser
      let between ← middle value
      return (value, between)) :=
    andThen first fun value => (second value).map
  have whole : Rereads outlook (_ >>= fun both : α × γ =>
      Parser.expect kind what >>= next both.1 both.2) :=
    thenExpect both fun both => third both.1 both.2
  simpa only [bind_assoc, pure_bind] using whole

theorem blockRest (innerRereads : RereadsPhrase NoElse inner) :
    Rereads outlook (Parser.blockRest inner) :=
  braced innerRereads fun _ _ => pure _

end Rereads

/-- A function is no less a phrase than a statement. -/
theorem RereadsPhrase.functionRest (innerRereads : RereadsPhrase NoElse inner) (noun : String) :
    RereadsPhrase outlook (Parser.functionRest inner noun) := by
  have param : Rereads SameAhead (Parser.expect .identifier "parameter name") :=
    (Rereads.expect _ _).narrow fun _ _ _ => trivial
  refine expectThen (by decide) fun name => ?_
  refine .expectThen fun opening => ?_
  refine .thenExpect (.items .tooManyParameters param) fun params closing => ?_
  exact .expectThen fun brace => (Rereads.blockRest innerRereads).map

namespace Rereads

theorem superclass? : Rereads SameAhead Parser.superclass? := by
  refine acceptThen (pure none) fun less => ?_
  exact expectThen fun name => pure _

theorem classRest (innerRereads : RereadsPhrase NoElse inner) :
    Rereads outlook (Parser.classRest inner) := by
  refine expectThen fun name => ?_
  refine thenExpect superclass? fun superclass brace => ?_
  exact braced (.functionRest innerRereads "method") fun methods closing => pure _

theorem initializer? (expressionRereads : Rereads SameAhead expression) :
    Rereads SameAhead (Parser.initializer? expression) :=
  acceptThen (pure none) fun _ => expressionRereads.map

theorem varRest (expressionRereads : Rereads SameAhead expression) :
    Rereads outlook (Parser.varRest expression) := by
  refine expectThen fun name => ?_
  exact thenExpect (initializer? expressionRereads) fun initializer semicolon => pure _

theorem expressionUnless (kind : TokenKind) (expressionRereads : Rereads SameAhead expression) :
    Rereads SameAhead (Parser.expressionUnless kind expression) := by
  refine andThen (isAhead kind) fun ahead => ?_
  cases ahead with
  | true => exact pure none
  | false => exact expressionRereads.map

theorem forInitializer (expressionRereads : RereadsPhrase SameAhead expression) :
    Rereads SameAhead (Parser.forInitializer expression) := by
  refine acceptThen (map ?_) fun token => ?_
  · exact thenExpect expressionRereads.rereads fun _ _ => pure _
  · by_cases isVar : token.kind = .kwVar
    · simp only [isVar, if_true]
      exact (varRest expressionRereads.rereads).map
    · simp only [isVar, if_false]
      exact pure none

theorem forRest (expressionRereads : RereadsPhrase SameAhead expression)
    (nestedRereads : Rereads outlook nested) :
    Rereads outlook (Parser.forRest expression nested) := by
  have clause (kind : TokenKind) : Rereads SameAhead (Parser.expressionUnless kind expression) :=
    expressionUnless kind expressionRereads.rereads
  refine expectThen fun opening => ?_
  refine andThenExpect (forInitializer expressionRereads) (fun first => clause .semicolon)
    fun first condition semicolon => ?_
  refine thenExpect (clause .rightParen) fun increment closing => ?_
  exact nestedRereads.map

theorem elseBranch? (nestedRereads : Rereads NoElse nested) :
    Rereads NoElse (Parser.elseBranch? nested) := by
  refine Reads.acceptThen _ ?_ fun otherwise => ?_
  · refine Reads.pure fun rest unwanted others alike => .declineThen ?_ (.refl _ _)
    intro token ahead
    rcases alike with same | noElse
    · exact unwanted token (same ▸ ahead)
    · simpa using noElse token ahead
  · have branch : Rereads NoElse (do return some (← nested)) := nestedRereads.map
    exact branch.mono fun taken result rest rereads wanted others alike =>
      .acceptThen wanted (rereads others alike)

theorem ifRest (expressionRereads : Rereads SameAhead expression)
    (nestedRereads : Rereads NoElse nested) :
    Rereads NoElse (Parser.ifRest expression nested) := by
  refine expectThen fun opening => ?_
  refine thenExpect expressionRereads fun condition closing => ?_
  refine bind nestedRereads (fun thenBranch => ?_) fun taken _ _ => NoElse.append taken
  exact (elseBranch? nestedRereads).map

theorem printRest (expressionRereads : Rereads SameAhead expression) :
    Rereads outlook (Parser.printRest expression) :=
  thenExpect expressionRereads fun _ _ => pure _

theorem returnRest (keyword : Token) (expressionRereads : Rereads SameAhead expression) :
    Rereads outlook (Parser.returnRest keyword expression) :=
  thenExpect (expressionUnless .semicolon expressionRereads) fun _ _ => pure _

theorem whileRest (expressionRereads : Rereads SameAhead expression)
    (nestedRereads : Rereads outlook nested) :
    Rereads outlook (Parser.whileRest expression nested) := by
  refine expectThen fun opening => ?_
  refine thenExpect expressionRereads fun condition closing => ?_
  exact nestedRereads.map

end Rereads

namespace RereadsPhrase

theorem statement (expressionRereads : RereadsPhrase SameAhead expression)
    (nestedRereads : RereadsPhrase NoElse nested) (innerRereads : RereadsPhrase NoElse inner) :
    RereadsPhrase NoElse (Parser.statement expression nested inner) := by
  refine acceptThen (by decide) ?_ fun token => ?_
  · exact thenExpect expressionRereads fun _ _ => .pure _
  · dsimp only
    split
    · exact .forRest expressionRereads nestedRereads.rereads
    · exact .ifRest expressionRereads.rereads nestedRereads.rereads
    · exact .printRest expressionRereads.rereads
    · exact .returnRest token expressionRereads.rereads
    · exact .whileRest expressionRereads.rereads nestedRereads.rereads
    · exact (Rereads.blockRest innerRereads).map

theorem declaration (expressionRereads : RereadsPhrase SameAhead expression)
    (nestedRereads : RereadsPhrase NoElse nested) (innerRereads : RereadsPhrase NoElse inner) :
    RereadsPhrase NoElse (Parser.declaration expression nested inner) := by
  refine recovering (acceptThen (by decide) nestedRereads fun token => ?_)
  dsimp only
  split
  · exact .classRest innerRereads
  · exact (RereadsPhrase.functionRest innerRereads "function").rereads.map
  · exact .varRest expressionRereads.rereads

mutual

theorem statementAt (depth : Nat) : RereadsPhrase NoElse (Parser.statementAt depth) := by
  cases depth with
  | zero => exact Reads.tooDeep _
  | succ depth => exact statement (expressionAt depth) (statementAt depth) (declarationAt depth)

theorem declarationAt (depth : Nat) : RereadsPhrase NoElse (Parser.declarationAt depth) := by
  cases depth with
  | zero => exact Reads.tooDeep _
  | succ depth => exact declaration (expressionAt depth) (statementAt depth) (declarationAt depth)

end

end RereadsPhrase

/-- The whole of a text is read in front of other statements as well. -/
theorem Reads.programInFront (depth : Nat) :
    Reads (programAt depth) fun taken trees rest => rest = [] →
      (∀ token ∈ taken.head?, token.kind ≠ .kwElse) ∧
        ∀ others, NoElse [] others → ∃ left, others.length ≤ left ∧
          LeadsTo False (programAt depth) taken others
            (do return trees ++ (← Parser.many (fun _ => true) (declarationAt depth) left)) := by
  refine Reads.bind Reads.remaining fun fuel none => ?_
  refine (manyInFront (.declarationAt depth) fuel).mono ?_
  rintro taken trees rest reread ⟨rfl, rfl⟩ rfl
  obtain ⟨_, noElse, inFront⟩ := reread (Nat.le_refl _)
  refine ⟨noElse, fun others alike => ?_⟩
  obtain ⟨left, enough, leads⟩ := inFront others alike _ (Nat.le_refl _)
  exact ⟨left, enough, .look .remaining leads⟩

/-- More fuel than there are tokens makes no difference. -/
theorem Reads.programWithFuel (depth : Nat) :
    Reads (programAt depth) fun taken trees rest => rest = [] → ∀ fuel, taken.length ≤ fuel →
      Yields False (Parser.many (fun _ => true) (declarationAt depth) fuel) taken [] trees := by
  refine Reads.bind Reads.remaining fun fuel none => ?_
  refine (RereadsWith.many (.declarationAt depth) fuel).mono ?_
  rintro taken trees rest reread ⟨rfl, rfl⟩ rfl moreFuel enough
  exact reread (Nat.le_refl _) [] rfl moreFuel ((List.append_nil taken).symm ▸ enough)

end Parser

/-- Two texts that are read without complaint are read so one after the other. -/
theorem parseWithin_append {depth : Nat} {first second : List Token}
    {trees others : List (Stmt Unit)} (firstParsed : parseWithin depth first = ⟨some trees, []⟩)
    (secondParsed : parseWithin depth second = ⟨some others, []⟩) :
    parseWithin depth (first ++ second) = ⟨some (trees ++ others), []⟩ := by
  obtain ⟨_, inFront⟩ := (Parser.Reads.programInFront depth).ofParse firstParsed rfl
  obtain ⟨noElse, _⟩ := (Parser.Reads.programInFront depth).ofParse secondParsed rfl
  obtain ⟨left, enough, leads⟩ := inFront second (.inr noElse)
  have rest := (Parser.Reads.programWithFuel depth).ofParse secondParsed rfl left enough
  have whole := (List.append_nil second ▸ leads).trans rest.map
  rcases whole [] with same | ⟨impossible, _⟩
  · rw [parseWithin, ← List.append_nil (first ++ second), same]
    rfl
  · exact impossible.elim

end LoxLang
