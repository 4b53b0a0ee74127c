import LoxLang.Proofs.Joining
import LoxLang.Proofs.Parser.StatementRereading
import LoxLang.Proofs.Renaming.Invariance
import LoxLang.Proofs.Scope.Reporting

/-!
# Texts run one after the other

Two texts may be run one after the other or as one text, one below the other.  The phases
of the check carry nothing over from one text to the next, and neither does a run but
for what is on the machine.  So it makes no difference, except that what was read from
the second text is further down.
-/

namespace LoxLang

/-! ## The joined text is accepted -/

/-- The second token is the first one, which was read from an earlier text, or it is the first one
moved below another text. -/
def Token.Displaced (above : String) (earlier moved : List Token) (token twin : Token) : Prop :=
  twin = token ∧ token ∈ earlier ∨ twin = token.below above ∧ token ∈ moved

/-- Nothing is renamed, but some tokens have moved. -/
def Renaming.displacing (above : String) (earlier moved : List Token) : Renaming where
  old := ""
  new := ""
  near := Token.Displaced above earlier moved
  kind := by
    rintro token twin (⟨rfl, _⟩ | ⟨rfl, _⟩) <;> rfl
  ordinary := by decide

theorem Token.below_keepsKinds (above : String) : KeepsKinds (Token.below above) :=
  ⟨fun _ => rfl, fun _ => rfl⟩

theorem TokenStream.lexeme_ne_empty {text : String} {token : Token}
    (member : token ∈ (ofText text).tokens) : token.lexeme ≠ "" := by
  obtain ⟨placed, inText, isToken⟩ := List.mem_filterMap.1 member
  obtain ⟨_, _, rfl⟩ := Option.map_eq_some_iff.1 isToken
  have inLexemes : placed.toLexeme ∈ Lexeme.all text.toList := by
    rw [← PlacedLexeme.map_toLexeme_place Mark.start (Lexeme.all text.toList)]
    exact List.mem_map_of_mem inText
  have nonempty := (Lexeme.sequence_all text.toList).chars_ne_nil _ inLexemes
  simpa [← String.toList_inj] using nonempty

theorem Scoping.each_append {α β : Type} {visit : α → Scoping β} {items others : List α}
    {results otherResults : List β} {start middle last : ScopeState}
    (first : Scoping.each visit items start = .ok results middle)
    (second : Scoping.each visit others middle = .ok otherResults last) :
    Scoping.each visit (items ++ others) start = .ok (results ++ otherResults) last := by
  induction items generalizing start results with
  | nil =>
      cases first
      exact second
  | cons item rest induction =>
      obtain ⟨head, afterHead, headDone, remaining⟩ := bind_eq_ok.1 first
      obtain ⟨tail, afterTail, tailDone, ended⟩ := bind_eq_ok.1 remaining
      cases ended
      exact bind_eq_ok.2 ⟨head, afterHead, headDone, bind_eq_ok.2
        ⟨_, last, induction tailDone, rfl⟩⟩

namespace Accepted

variable {host : Host} {text above : String} {statements : List (Stmt Site)}
  {trees : List (Stmt Unit)} {state : ScopeState}

theorem parsed (accepted : Accepted host text statements trees state) :
    parseWithin host.nesting (TokenStream.ofText text).tokens = ⟨some trees, []⟩ := by
  rw [← accepted.read, ← accepted.quiet]

/-- The statements of a text stay as they are when their tokens move. -/
theorem displaced (accepted : Accepted host text statements trees state) (above : String)
    (earlier : List Token) :
    Stmt.AllRenamed (Renaming.displacing above earlier (TokenStream.ofText text).tokens) []
      statements (Stmt.mapAll (Token.below above) id statements) := by
  have unmarked : Unmarked [] := nofun
  refine .spared unmarked statements fun token member => Renaming.keeps_iff.2 ⟨?_, rfl⟩
  exact .inr ⟨rfl, accepted.tokens_subset member⟩

/-- Two texts that are accepted are accepted one below the other. -/
theorem joinLines {statementsAbove : List (Stmt Site)} {treesAbove : List (Stmt Unit)}
    {stateAbove : ScopeState}
    (acceptedAbove : Accepted host above statementsAbove treesAbove stateAbove)
    (clean : TokenStream.issuesOf above = [])
    (accepted : Accepted host text statements trees state) :
    ∃ last, Accepted host (LoxLang.joinLines above text)
      (statementsAbove ++ Stmt.mapAll (Token.below above) id statements)
      (treesAbove ++ trees.map (Stmt.map (Token.below above) id)) last := by
  have read := parseWithin_map (Token.below_keepsKinds above) host.nesting
    (TokenStream.ofText text).tokens
  rw [accepted.parsed] at read
  have joined := parseWithin_append acceptedAbove.parsed read
  rw [← TokenStream.tokens_joinLines clean] at joined
  obtain ⟨noScopes, noFunction, noClass⟩ := Scoping.program_atTop acceptedAbove.resolved
  let r := Renaming.displacing above [] (TokenStream.ofText text).tokens
  have like : ScopeState.Renamed r [] (stateAbove.references.map Reference.shape)
      ScopeState.start stateAbove :=
    ⟨noScopes ▸ .nil, noFunction, noClass, by simp [acceptedAbove.harmless], rfl⟩
  have fresh : Fresh r (Stmt.tokensOfAll statements) :=
    fun token member => TokenStream.lexeme_ne_empty (accepted.tokens_subset member)
  obtain ⟨last, resolved, harmless, _⟩ :=
    accepted.resolvedFrom (accepted.displaced above []) fresh like
  exact ⟨last, by rw [joined], by rw [joined], Scoping.each_append acceptedAbove.resolved resolved,
    harmless⟩

end Accepted

/-! ## How the run of an accepted text ends -/

namespace Message

/-- Whether the message is one that reports which are not verbose have as well. -/
def isPlain : Message → Bool
  | .note _ | .illustration _ => false
  | .issue _ | .runtimeError _ _ => true

end Message

/-- What a report says that is not verbose. -/
def Report.plain (report : Report) : List Message := report.transcript.filter Message.isPlain

theorem Report.plain_passed (report : Report) (tokens statements references : Nat) :
    (report.passed tokens statements references).plain = report.plain := by
  have plain_note (report : Report) (words : String) :
      (report.note words).plain = report.plain := by
    unfold note
    split
    · simp [plain, say, Message.isPlain]
    · rfl
  simp only [passed, plain_note]

theorem Report.plain_addRuntimeError (report : Report) (message : String) (line : Nat) :
    (report.addRuntimeError message line).plain = report.plain ++ [.runtimeError message line] := by
  simp [addRuntimeError, say, plain, Message.isPlain]

theorem Report.hadRuntimeError_passed (report : Report) (tokens statements references : Nat) :
    (report.passed tokens statements references).hadRuntimeError = report.hadRuntimeError := by
  have same_note (report : Report) (words : String) :
      (report.note words).hadRuntimeError = report.hadRuntimeError := by
    unfold note
    split <;> rfl
  simp only [passed, same_note]

/-- What is said of an error. -/
def RuntimeError.told (error : RuntimeError) : Message :=
  .runtimeError error.fault.message error.about.line

namespace RunEnd

/-- The machine that is left behind. -/
def machine : RunEnd → Machine
  | .ok _ machine | .error _ machine => machine

/-- The error with which the run ended. -/
def error? : RunEnd → Option RuntimeError
  | .error (.error error) _ => some error
  | _ => none

/-- How the run of a text ends with that of its statements. -/
def ending : RunEnd → Ending
  | .ok _ _ => .finished .ok
  | .error (.error _) _ => .finished .softwareError
  | .error stop _ => .interrupted stop

theorem eq_ok_of_ending {outcome : RunEnd} (well : outcome.ending = .finished .ok) :
    outcome = .ok () outcome.machine := by
  cases outcome with
  | ok result after => rfl
  | error stop after => cases stop <;> cases well

end RunEnd

/-- A step was the run of a text whose statements ran to this end. -/
structure Session.RanTo (taken : Session × Answer) (outcome : RunEnd) : Prop where
  answer : taken.2 = .ran outcome.ending
  machine : taken.1.machine = outcome.machine
  plain : taken.1.report.plain = outcome.error?.toList.map RuntimeError.told

/-- The statements of an accepted text are executed, and nothing is said but the error with which
they end. -/
theorem Accepted.ranTo {host : Host} {text : String} {statements : List (Stmt Site)}
    {trees : List (Stmt Unit)} {state : ScopeState}
    (accepted : Accepted host text statements trees state)
    (clean : TokenStream.issuesOf text = []) (session : Session) :
    Session.RanTo (session.step host ⟨.run text, true⟩)
      (Run.program host statements session.machine.silent) := by
  let started := (session.prepared ⟨.run text, true⟩).setSource text
  have checked : started.check host text = _ := accepted.session_check rfl clean
  have stepped : session.step host ⟨.run text, true⟩ =
      (((session.prepared ⟨.run text, true⟩).run host text).1,
        .ran ((session.prepared ⟨.run text, true⟩).run host text).2) := rfl
  rw [stepped, Session.run_eq checked]
  have plain := started.report.plain_passed (TokenStream.ofText text).size trees.length
    (started.recorded + state.references.length)
  have calm := started.report.hadRuntimeError_passed (TokenStream.ofText text).size trees.length
    (started.recorded + state.references.length)
  generalize started.report.passed _ _ _ = report at plain calm
  have sameMachine : started.machine = session.machine.silent := rfl
  unfold Session.interpret
  dsimp only
  rw [sameMachine]
  cases Run.program host statements session.machine.silent with
  | ok result after =>
      have well : (if report.hadRuntimeError then ExitStatus.softwareError else .ok) = .ok := by
        rw [calm]
        rfl
      exact ⟨congrArg (fun status => Session.Answer.ran (.finished status)) well, rfl, plain⟩
  | error stop after =>
      cases stop with
      | error error => exact ⟨rfl, rfl, (report.plain_addRuntimeError _ _).trans
          (by rw [plain]; rfl)⟩
      | _ => exact ⟨rfl, rfl, plain⟩

/-- The error with which a text ends when it is run in a step of its own. -/
def Session.error? (host : Host) (session : Session) (text : String) : Option RuntimeError :=
  match ((session.prepared ⟨.run text, true⟩).check host text).2 with
  | .ok statements => RunEnd.error? (Run.program host statements session.machine.silent)
  | .error _ => none

/-- After statements that end well, more statements run as they do alone. -/
theorem Run.program_append {host : Host} {statements : List (Stmt Site)} {start middle : Machine}
    (ends : Run.program host statements start = .ok () middle) (others : List (Stmt Site)) :
    Run.program host (statements ++ others) start = Run.program host others middle := by
  have inTurn : Run.program host (statements ++ others) =
      (do Run.program host statements; Run.program host others) := by
    clear ends
    induction statements with
    | nil => rfl
    | cons first rest induction =>
        rw [List.cons_append, Run.program, Run.program, induction, bind_assoc]
  rw [inTurn]
  change EStateM.bind _ _ start = _
  rw [EStateM.bind, ends]

theorem Session.accepted_of_ran {host : Host} {session : Session} {text : String}
    (ran : (session.step host ⟨.run text, true⟩).2 = .ran (.finished .ok)) :
    TokenStream.issuesOf text = [] ∧
      ∃ statements trees state, Accepted host text statements trees state := by
  have ended : ((session.prepared ⟨.run text, true⟩).run host text).2 = .finished .ok :=
    Answer.ran.inj ran
  cases outcome : ((session.prepared ⟨.run text, true⟩).setSource text).check host text with
  | mk checked result =>
      cases result with
      | error phase =>
          rw [run_eq_of_rejected outcome] at ended
          cases ended
      | ok statements =>
          obtain ⟨_, clean, accepted⟩ := passed_check (congrArg Prod.snd outcome)
          exact ⟨clean, statements, accepted⟩

theorem Accepted.error?_eq {host : Host} {text : String} {statements : List (Stmt Site)}
    {trees : List (Stmt Unit)} {state : ScopeState}
    (accepted : Accepted host text statements trees state)
    (clean : TokenStream.issuesOf text = []) (session : Session) :
    session.error? host text =
      RunEnd.error? (Run.program host statements session.machine.silent) := by
  rw [Session.error?, accepted.session_check rfl clean]

theorem Machine.printedText_append {machine earlier later : Machine}
    (appended : later.printed = machine.printed ++ earlier.printed) :
    later.printedText = earlier.printedText ++ machine.printedText := by
  simp [printedText, appended]

namespace RunEnd.Alike

variable {r : Renaming} {past : List String} {outcome twin : RunEnd}

theorem machines (alike : RunEnd.Alike r past outcome twin) :
    outcome.machine.Alike r past twin.machine := by
  cases alike with
  | ok machines => exact machines
  | error _ machines => exact machines

theorem ending (alike : RunEnd.Alike r past outcome twin) : twin.ending = outcome.ending := by
  cases alike with
  | ok _ => rfl
  | error stops _ => cases stops <;> rfl

/-- The errors are the same, at tokens that are near. -/
theorem errors (alike : RunEnd.Alike r past outcome twin) :
    Option.Rel (fun error other => other.fault = error.fault ∧ r.near error.about other.about)
      outcome.error? twin.error? := by
  cases alike with
  | ok _ => exact .none
  | error stops _ =>
      cases stops with
      | error near => exact .some ⟨rfl, near⟩
      | _ => exact .none

/-- If near tokens stand on the same line, then the same is said of both. -/
theorem told (alike : RunEnd.Alike r past outcome twin)
    (lines : ∀ token other, r.near token other → other.line = token.line) :
    twin.error?.toList.map RuntimeError.told = outcome.error?.toList.map RuntimeError.told := by
  have errors := alike.errors
  generalize outcome.error? = error at errors
  generalize twin.error? = other at errors
  cases errors with
  | none => rfl
  | some related =>
      obtain ⟨sameFault, near⟩ := related
      simp [RuntimeError.told, sameFault, lines _ _ near]

end RunEnd.Alike

theorem Accepted.blankLines (host : Host) (count : Nat) :
    Accepted host (LoxLang.blankLines count) [] [] ScopeState.start := by
  have read : parseWithin host.nesting (TokenStream.ofText (LoxLang.blankLines count)).tokens =
      ⟨some [], []⟩ := by
    rw [TokenStream.tokens_blankLines]
    rfl
  exact ⟨by rw [read], by rw [read], rfl, rfl⟩

/-- The token moved from below one text to below another one. -/
def Token.moveBelow (above other : String) (token : Token) : Token :=
  { token with spot := token.spot - (above.toList.length + 1) + (other.toList.length + 1) }

/-- Below a text tokens stand on the same lines as below so many blank lines. -/
theorem Token.moveBelow_below (above : String) (token : Token) :
    (token.below (blankLines (above.toList.count '\n'))).moveBelow
      (blankLines (above.toList.count '\n')) above = token.below above := by
  simp [below, moveBelow, Mark.below, blankLines]

/-- Nothing is renamed, and every token stays on its line. -/
def Renaming.keepingLines : Renaming := Renaming.onLines "" "" (by decide)

/-- Statements of a text below another one run as they do below so many blank lines. -/
theorem displaced_onLines (above : String) (statements : List (Stmt Site)) :
    Stmt.AllRenamed Renaming.keepingLines []
      (Stmt.mapAll (Token.below (blankLines (above.toList.count '\n'))) id statements)
      (Stmt.mapAll (Token.below above) id statements) := by
  have unmarked : Unmarked [] := nofun
  let blank := blankLines (above.toList.count '\n')
  let twins := Stmt.mapAll (Token.below blank) id statements
  have moved : Stmt.AllRenamed Renaming.keepingLines [] twins
      (Stmt.mapAll (Token.moveBelow blank above) id twins) :=
    .spared unmarked twins fun token _ => Renaming.keeps_iff.2 ⟨⟨rfl, rfl⟩, rfl⟩
  have together : Token.moveBelow blank above ∘ Token.below blank = Token.below above :=
    funext (Token.moveBelow_below above)
  rwa [Stmt.mapAll_mapAll, together] at moved

/-- After one more step a machine is still like itself. -/
theorem Session.step_after_itself (host : Host) (verbose : Bool) {taken : List Step} {last : Step}
    {r : Renaming} (near : ∀ token ∈ tokensRead (taken ++ [last]), r.near token token) :
    (((fresh verbose).after host taken).step host last).1.machine.Alike r []
      (((fresh verbose).after host taken).step host last).1.machine := by
  have after : ((fresh verbose).after host (taken ++ [last])).machine.Alike r [] _ :=
    after_itself near
  rwa [Session.after, List.foldl_append] at after

/-- It makes no difference whether two texts are run in two steps or as one text, one below the
other, if each is accepted by itself and the first one runs to its end without an error: the joined
text is accepted, prints what both print, ends like the second one, and leaves the same at the top
level.  What is said of an error is what is said when the second text stands below as many blank
lines as the first one has lines.  It is the error with which the second text ends, at the same
token or, if that is one of the second text, at the token moved down. -/
theorem pieces_run_like_whole (host : Host) (verbose : Bool) (taken : List Session.Step)
    {first second : String} {statements : List (Stmt Site)}
    (accepted : ((Session.fresh verbose).check host second).2 = .ok statements)
    (ran : (((Session.fresh verbose).after host taken).step host ⟨.run first, true⟩).2 =
      .ran (.finished .ok)) :
    let session := (Session.fresh verbose).after host taken
    let one := session.step host ⟨.run first, true⟩
    let two := one.1.step host ⟨.run second, true⟩
    let lowered := joinLines (blankLines (first.toList.count '\n')) second
    let whole := session.step host ⟨.run (joinLines first second), true⟩
    let earlier := Session.tokensRead (taken ++ [⟨.run first, true⟩])
    (∃ joined, ((Session.fresh verbose).check host (joinLines first second)).2 = .ok joined) ∧
      whole.2 = two.2 ∧
      whole.1.machine.printedText = one.1.machine.printedText ++ two.1.machine.printedText ∧
      whole.1.machine.shownGlobals = two.1.machine.shownGlobals ∧
      whole.1.report.plain = (one.1.step host ⟨.run lowered, true⟩).1.report.plain ∧
      two.1.report.plain = (one.1.error? host second).toList.map RuntimeError.told ∧
      whole.1.report.plain = (session.error? host (joinLines first second)).toList.map
        RuntimeError.told ∧
      Option.Rel (fun error other => other.fault = error.fault ∧
          error.about.Displaced first earlier (TokenStream.ofText second).tokens other.about)
        (one.1.error? host second) (session.error? host (joinLines first second)) := by
  intro session one two lowered whole earlier
  obtain ⟨cleanFirst, statementsFirst, _, _, acceptedFirst⟩ := Session.accepted_of_ran ran
  obtain ⟨_, cleanSecond, _, _, acceptedSecond⟩ := passed_check accepted
  obtain ⟨_, acceptedWhole⟩ := acceptedFirst.joinLines cleanFirst acceptedSecond
  have cleanWhole := TokenStream.issuesOf_joinLines cleanFirst cleanSecond
  have cleanBlank := TokenStream.issuesOf_blankLines (first.toList.count '\n')
  obtain ⟨_, acceptedLowered⟩ := (Accepted.blankLines host _).joinLines cleanBlank acceptedSecond
  have ranFirst := acceptedFirst.ranTo cleanFirst session
  have ranSecond := acceptedSecond.ranTo cleanSecond one.1
  have ranWhole := acceptedWhole.ranTo cleanWhole session
  have ranLowered := acceptedLowered.ranTo (TokenStream.issuesOf_joinLines cleanBlank cleanSecond)
    one.1
  have endedFirst := RunEnd.eq_ok_of_ending
    (Session.Answer.ran.inj (ranFirst.answer.symm.trans ran))
  rw [← ranFirst.machine] at endedFirst
  have wholeEnd := Run.program_append endedFirst (Stmt.mapAll (Token.below first) id statements)
  -- The run of the joined text is compared twice: with that of the second text, whose tokens are
  -- not as far down, and with that of the lowered text, whose tokens are on the same lines.
  let r := Renaming.displacing first earlier (TokenStream.ofText second).tokens
  have stays : ∀ token ∈ earlier, r.near token token := fun token member => .inl ⟨rfl, member⟩
  have onLine : ∀ token ∈ earlier, Renaming.keepingLines.near token token := fun _ _ => ⟨rfl, rfl⟩
  have displaced := Run.program_alike host
    (Session.step_after_itself host verbose stays).silentFirst
    (acceptedSecond.displaced first earlier)
  have sameLines := Run.program_alike host
    (Session.step_after_itself host verbose onLine).silentFirst (displaced_onLines first statements)
  rw [← wholeEnd] at displaced sameLines
  refine ⟨⟨_, by rw [acceptedWhole.session_check rfl cleanWhole]⟩, ?_, ?_, ?_, ?_, ?_, ?_, ?_⟩
  · rw [ranWhole.answer, ranSecond.answer, displaced.ending]
  · apply Machine.printedText_append
    rw [ranWhole.machine, ranSecond.machine, displaced.machines.printed]
  · rw [ranWhole.machine, ranSecond.machine, displaced.machines.shownGlobals]
  · rw [ranWhole.plain, ranLowered.plain, List.nil_append]
    exact sameLines.told fun _ _ near => near.2
  · rw [ranSecond.plain, acceptedSecond.error?_eq cleanSecond]
  · rw [ranWhole.plain, acceptedWhole.error?_eq cleanWhole]
  · rw [acceptedSecond.error?_eq cleanSecond, acceptedWhole.error?_eq cleanWhole]
    exact displaced.errors

/-- The ending of a run, if the answer is one to a run. -/
def Session.Answer.ending? : Answer → Option Ending
  | .ran ending => some ending
  | _ => none

theorem Session.Answer.eq_ran {answer : Answer} {ending : Ending}
    (isEnding : answer.ending? = some ending) : answer = .ran ending := by
  cases answer <;> cases isEnding
  rfl

/-- After `var n = 3;` a function is declared on three lines.  The second text prints what it
returns, and fails on its own second line, which is the fifth line of the joined text. -/
theorem pieces_run_like_whole_function :
    let host := Host.standard fun _ => 0
    let first := "fun f() \x7b\n  return n;\n\x7d"
    let second := "print f();\nf() + nil;"
    let session := (Session.fresh false).after host [⟨.run "var n = 3;", true⟩]
    let two := (session.step host ⟨.run first, true⟩).1.step host ⟨.run second, true⟩
    let whole := session.step host ⟨.run (joinLines first second), true⟩
    whole.2 = two.2 ∧ whole.1.machine.shownGlobals = two.1.machine.shownGlobals ∧
      two.1.report.plain = [.runtimeError "Operands must be two numbers or two strings." 2] ∧
      whole.1.report.plain = [.runtimeError "Operands must be two numbers or two strings." 5] := by
  intro host first second session two whole
  have ran : (session.step host ⟨.run first, true⟩).2.ending? = some (.finished .ok) := by
    decide +kernel
  have passes : ((Session.fresh false).check host second).2.toOption.isSome = true := by
    decide +kernel
  have told : two.1.report.plain =
      [.runtimeError "Operands must be two numbers or two strings." 2] := by decide +kernel
  have toldWhole : whole.1.report.plain =
      [.runtimeError "Operands must be two numbers or two strings." 5] := by decide +kernel
  cases outcome : ((Session.fresh false).check host second).2 with
  | error phase => simp [outcome, Except.toOption] at passes
  | ok statements =>
      obtain ⟨_, answers, _, globals, _⟩ :=
        pieces_run_like_whole host false _ outcome (Session.Answer.eq_ran ran)
      exact ⟨answers, globals, told, toldWhole⟩

/-- Every line of the message is as far down as it is below another text. -/
def Message.below (above : String) : Message → Message
  | .issue it => .issue { it with line := it.line + (above.toList.count '\n' + 1) }
  | .runtimeError message line => .runtimeError message (line + (above.toList.count '\n' + 1))
  | other => other

/-- An error in a function of the first text is not further down in the joined text. -/
theorem function_keeps_its_lines :
    ¬∀ (host : Host) (verbose : Bool) (taken : List Session.Step) (first second : String)
      (statements : List (Stmt Site)),
      ((Session.fresh verbose).check host second).2 = .ok statements →
      (((Session.fresh verbose).after host taken).step host ⟨.run first, true⟩).2 =
        .ran (.finished .ok) →
      let session := (Session.fresh verbose).after host taken
      let one := session.step host ⟨.run first, true⟩
      (session.step host ⟨.run (joinLines first second), true⟩).1.report.plain =
        (one.1.step host ⟨.run second, true⟩).1.report.plain.map (Message.below first) := by
  intro always
  let host := Host.standard fun _ => 0
  let first := "fun f() \x7b return -\"a\"; \x7d"
  let one := (Session.fresh false).step host ⟨.run first, true⟩
  have ran : one.2.ending? = some (.finished .ok) := by decide +kernel
  have passes : ((Session.fresh false).check host "f();").2.toOption.isSome = true := by
    decide +kernel
  have differs :
      ((Session.fresh false).step host ⟨.run (joinLines first "f();"), true⟩).1.report.plain ≠
        (one.1.step host ⟨.run "f();", true⟩).1.report.plain.map (Message.below first) := by
    decide +kernel
  cases outcome : ((Session.fresh false).check host "f();").2 with
  | error phase => simp [outcome, Except.toOption] at passes
  | ok statements =>
      exact differs (always host false [] first "f();" statements outcome
        (Session.Answer.eq_ran ran))

end LoxLang
