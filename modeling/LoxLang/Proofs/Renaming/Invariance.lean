import LoxLang.Proofs.Renaming.Respelling
import LoxLang.Proofs.Renaming.Scopes
import LoxLang.Proofs.Renaming.Sessions
import LoxLang.Proofs.Renaming.Trees

/-!
# Programs with a variable renamed

A variable or a parameter that is declared in a scope may be given any name that the
text does not have.  The renamed text is accepted as well, its names have the same
sites, and its run is the same to the outside.
-/

namespace LoxLang

/-- The text in which a variable of its statements has a new name. -/
def renameVariable (text : String) (statements : List (Stmt Site)) (binder : Token)
    (new : String) : String :=
  respell text ((Stmt.namingsOfAll binder none statements).map Token.toMark) new

/-- The second token stands on the same line and is of the same kind; it has the new lexeme if the
first one names the variable. -/
structure Token.RenamedWith (namings : List Token) (new : String) (token twin : Token) : Prop where
  kind : twin.kind = token.kind
  line : twin.line = token.line
  lexeme : twin.lexeme = if token ∈ namings then new else token.lexeme

/-- A renaming that leaves every token on its line. -/
def Renaming.onLines (old new : String)
    (ordinary : ∀ name ∈ ["this", "super"], name ≠ old ∧ name ≠ new) : Renaming where
  old := old
  new := new
  near token twin := twin.kind = token.kind ∧ twin.line = token.line
  kind := And.left
  ordinary := ordinary

/-- The run looks the same from outside. -/
structure Session.LooksLike (ran twin : Session × Ending) : Prop where
  ending : twin.2 = ran.2
  printed : twin.1.machine.printed = ran.1.machine.printed
  transcript : twin.1.report.transcript = ran.1.report.transcript
  globals : twin.1.machine.shownGlobals = ran.1.machine.shownGlobals

namespace Accepted

variable {host : Host} {text new : String} {statements : List (Stmt Site)}
  {trees : List (Stmt Unit)} {state : ScopeState} {binder : Token}

theorem namings_subset (accepted : Accepted host text statements trees state) (home : Site) :
    Stmt.namingsOfAll binder home statements ⊆ (TokenStream.ofText text).tokens := by
  intro token member
  exact accepted.tokens_subset ((Stmt.namingsOfAll_among home statements).within.subset member)

theorem nodup_tokens (accepted : Accepted host text statements trees state) :
    (Stmt.tokensOfAll statements).Nodup := by
  apply List.nodup_iff_count_le_one.2
  intro token
  exact (accepted.tokens_count token).trans
    (List.nodup_iff_count_le_one.1 (TokenStream.nodup_tokens text) token)

/-- What declares a variable or a parameter is an identifier of the text. -/
theorem local_isName (accepted : Accepted host text statements trees state)
    (isLocal : binder ∈ Stmt.localsOfAll statements) :
    binder.kind = .identifier ∧ binder ∈ (TokenStream.ofText text).tokens := by
  constructor
  · have inTrees : binder ∈ Stmt.localsOfAll trees := by
      rwa [← accepted.laid.1, Stmt.localsOfAll_map, List.map_id]
    obtain ⟨tree, member, inTree⟩ := Stmt.mem_localsOfAll.1 inTrees
    exact (accepted.grammatical tree member).namesLocals.1 binder inTree
  · exact accepted.namings_subset none (Stmt.mem_namingsOfAll_of_locals statements isLocal)

/-- All tokens that name the variable are identifiers. -/
theorem namings_areNames (accepted : Accepted host text statements trees state)
    (isLocal : binder ∈ Stmt.localsOfAll statements) :
    ∀ token ∈ Stmt.namingsOfAll binder none statements, token.kind = .identifier := by
  intro token member
  obtain ⟨isName, inText⟩ := accepted.local_isName isLocal
  exact TokenStream.kind_eq_of_lexeme inText (accepted.namings_subset none member) isName
    ((Stmt.namingsOfAll_among none statements).lexeme token member)

/-- What stands where the variable is named is an identifier. -/
theorem named (accepted : Accepted host text statements trees state)
    (isLocal : binder ∈ Stmt.localsOfAll statements) :
    ∀ placed ∈ placedLexemes text.toList,
      placed.Named ((Stmt.namingsOfAll binder none statements).map Token.toMark) := by
  intro placed inText marked
  obtain ⟨token, member, sameMark⟩ := List.mem_map.1 marked
  obtain ⟨other, otherInText, isToken⟩ :=
    List.mem_filterMap.1 (accepted.namings_subset none member)
  have otherMark : other.mark = token.toMark := by
    obtain ⟨_, _, rfl⟩ := Option.map_eq_some_iff.1 isToken
    rfl
  have same : other = placed := List.inj_on_of_nodup_map (nodup_placedLexemes text.toList)
    otherInText inText (otherMark.trans sameMark)
  exact ⟨token, same ▸ isToken, accepted.namings_areNames isLocal token member⟩

/-- The tokens of the renamed text come from those of the text. -/
theorem tokens_rename (accepted : Accepted host text statements trees state)
    (isLocal : binder ∈ Stmt.localsOfAll statements) (identifier : IsIdentifier new) :
    ∃ rewrite : Token → Token,
      (TokenStream.ofText (renameVariable text statements binder new)).tokens =
        (TokenStream.ofText text).tokens.map rewrite ∧
      ∀ token : Token,
        token.RenamedWith (Stmt.namingsOfAll binder none statements) new (rewrite token) := by
  obtain ⟨rewrite, isMap, respelled, others⟩ :=
    tokens_respell identifier (accepted.named isLocal)
  refine ⟨rewrite, isMap, ?_⟩
  intro token
  have inText : Stmt.namingsOfAll binder none statements ⊆ (TokenStream.ofText text).tokens :=
    accepted.namings_subset none
  by_cases member : token ∈ (TokenStream.ofText text).tokens
  · obtain ⟨kind, line, lexeme⟩ := respelled token member
    refine ⟨kind, line, lexeme.trans ?_⟩
    have marked : token.toMark ∈ (Stmt.namingsOfAll binder none statements).map Token.toMark ↔
        token ∈ Stmt.namingsOfAll binder none statements := by
      constructor
      · intro marked
        obtain ⟨other, named, sameMark⟩ := List.mem_map.1 marked
        rwa [← List.inj_on_of_nodup_map (TokenStream.nodup_marks text) (inText named)
          member sameMark]
      · exact fun named => List.mem_map_of_mem named
    simp only [marked]
  · have notNamed : token ∉ Stmt.namingsOfAll binder none statements := mt (@inText token) member
    rw [others token member]
    exact ⟨rfl, rfl, (if_neg notNamed).symm⟩

variable {rewrite : Token → Token}

/-- A parser sees no difference. -/
theorem keepsKinds (accepted : Accepted host text statements trees state)
    (isLocal : binder ∈ Stmt.localsOfAll statements)
    (rewritten : ∀ token : Token,
      token.RenamedWith (Stmt.namingsOfAll binder none statements) new (rewrite token)) :
    KeepsKinds rewrite where
  kind := fun token => (rewritten token).kind
  literal := by
    intro token
    obtain ⟨kind, _, lexeme⟩ := rewritten token
    unfold Token.literal?
    by_cases named : token ∈ Stmt.namingsOfAll binder none statements
    · rw [kind, accepted.namings_areNames isLocal token named]
    · rw [kind, lexeme, if_neg named]

/-- The pass through the trees with other tokens makes the renamed statements of them, wherever it
starts that is like the start of a program. -/
theorem resolvedFrom (accepted : Accepted host text statements trees state) {r : Renaming}
    {past : List (ReferenceKind × Nat)} {start : ScopeState}
    (renamed : Stmt.AllRenamed r [] statements (Stmt.mapAll rewrite id statements))
    (fresh : Fresh r (Stmt.tokensOfAll statements))
    (like : ScopeState.Renamed r [] past ScopeState.start start) :
    ∃ last, Scoping.each (Scoping.stmt host.scopeRoom) (trees.map (Stmt.map rewrite id)) start =
        .ok (Stmt.mapAll rewrite id statements) last ∧
      last.complaints = [] ∧
      last.references.map Reference.shape = state.references.map Reference.shape ++ past := by
  have mimics := Scoping.Mimics.body (Scoping.Mimics.statements host.scopeRoom) renamed fresh
  rw [accepted.bare_mapAll, accepted.laid.1] at mimics
  obtain ⟨last, resolved, related⟩ := mimics _ _ _ like accepted.resolved
  have fewer := related.complaints
  rw [accepted.harmless] at fewer
  exact ⟨last, resolved, List.eq_nil_of_length_eq_zero (Nat.le_zero.1 fewer), related.references⟩

/-- The renamed text is accepted.  Its statements are those of the text, with the same sites, and
its references lead as far. -/
theorem rename (accepted : Accepted host text statements trees state)
    (isLocal : binder ∈ Stmt.localsOfAll statements) (identifier : IsIdentifier new)
    (fresh : ∀ token ∈ (TokenStream.ofText text).tokens, token.lexeme ≠ new) :
    ∃ rewrite : Token → Token,
      (TokenStream.ofText (renameVariable text statements binder new)).tokens =
        (TokenStream.ofText text).tokens.map rewrite ∧
      (∀ token : Token,
        token.RenamedWith (Stmt.namingsOfAll binder none statements) new (rewrite token)) ∧
      (∃ stateTwin, Accepted host (renameVariable text statements binder new)
          (Stmt.mapAll rewrite id statements) (trees.map (Stmt.map rewrite id)) stateTwin ∧
        stateTwin.references.map Reference.shape = state.references.map Reference.shape) ∧
      ∃ ordinary, Stmt.AllRenamed (Renaming.onLines binder.lexeme new ordinary) [] statements
        (Stmt.mapAll rewrite id statements) := by
  obtain ⟨rewrite, isMap, rewritten⟩ := accepted.tokens_rename isLocal identifier
  obtain ⟨isName, inText⟩ := accepted.local_isName isLocal
  have worded := TokenStream.worded inText
  have ordinary : ∀ name ∈ ["this", "super"], name ≠ binder.lexeme ∧ name ≠ new := by
    have newName := identifier.isName
    simp only [List.forall_mem_cons, List.not_mem_nil, false_imp_iff, implies_true, and_true]
    exact ⟨⟨(worded.ne_this isName).symm, (TokenKind.ne_of_ofWord newName (by decide)).symm⟩,
      (worded.ne_super isName).symm, (TokenKind.ne_of_ofWord newName (by decide)).symm⟩
  let r := Renaming.onLines binder.lexeme new ordinary
  obtain ⟨_, survey, address, laid⟩ := accepted.laid
  have freshInside : Fresh r (Stmt.tokensOfAll statements) :=
    fun token member => fresh token (accepted.tokens_subset member)
  have rewrites : Rewrites r (Stmt.namingsOfAll binder none statements) rewrite :=
    ⟨fun token => ⟨(rewritten token).kind, (rewritten token).line⟩,
      fun token => (rewritten token).lexeme⟩
  have renamed : Stmt.AllRenamed r [] statements (Stmt.mapAll rewrite id statements) :=
    Stmt.allRenamed rewrites rfl .top statements laid (fun _ _ => nofun) freshInside
      ⟨accepted.nodup_tokens, fun _ _ => Iff.rfl⟩
  have read := parseWithin_map (accepted.keepsKinds isLocal rewritten) host.nesting
    (TokenStream.ofText text).tokens
  rw [← isMap] at read
  have start : ScopeState.Renamed r [] [] ScopeState.start ScopeState.start :=
    ⟨.nil, rfl, rfl, Nat.le_refl _, rfl⟩
  obtain ⟨stateTwin, resolved, harmless, shapes⟩ := accepted.resolvedFrom renamed freshInside start
  refine ⟨rewrite, isMap, rewritten, ⟨stateTwin, ⟨?_, ?_, resolved, harmless⟩, ?_⟩, ordinary,
    renamed⟩
  · rw [read, Parse.map, accepted.read, Option.map_some]
  · rw [read, Parse.map, accepted.quiet, List.map_nil]
  · simpa using shapes

end Accepted

/-- Where the texts of two sessions stand on the same lines, and nothing else is different, related
statements run alike. -/
theorem Session.finish_looksLike (host : Host) {session twin : Session} {old new : String}
    {ordinary : ∀ name ∈ ["this", "super"], name ≠ old ∧ name ≠ new}
    {statements twins : List (Stmt Site)}
    (alike : session.machine.Alike (Renaming.onLines old new ordinary) [] twin.machine)
    (transcripts : twin.report.transcript = session.report.transcript)
    (errors : twin.report.hadRuntimeError = session.report.hadRuntimeError)
    (renamed : Stmt.AllRenamed (Renaming.onLines old new ordinary) [] statements twins) :
    LooksLike (finish (session.interpret host statements))
      (finish (twin.interpret host twins)) := by
  obtain ⟨machines, stops, told⟩ := interpret_alike host alike renamed
  have printed := machines.printed
  rw [List.append_nil] at printed
  have reports : (twin.interpret host twins).1.report.transcript =
        (session.interpret host statements).1.report.transcript ∧
      (twin.interpret host twins).1.report.hadRuntimeError =
        (session.interpret host statements).1.report.hadRuntimeError := by
    generalize (session.interpret host statements).1.report = report at told
    generalize (twin.interpret host twins).1.report = reportTwin at told
    cases told with
    | nothing => exact ⟨transcripts, errors⟩
    | error fault near =>
        simp only [Report.addRuntimeError, Report.say, transcripts, near.2, and_self]
  have globals := machines.shownGlobals
  generalize session.interpret host statements = outcome at stops printed reports globals
  generalize twin.interpret host twins = outcomeTwin at stops printed reports globals
  obtain ⟨ran, stop⟩ := outcome
  obtain ⟨ranTwin, stopTwin⟩ := outcomeTwin
  dsimp only at stops printed reports globals
  subst stops
  cases stopTwin with
  | none => exact ⟨by simp only [finish, reports.2], printed, reports.1, globals⟩
  | some stop => exact ⟨rfl, printed, reports.1, globals⟩

/-- A variable or a parameter that is declared in a scope can be renamed.  The renamed text, in
which exactly the tokens that name the variable have the new lexeme, is accepted too, with the same
sites and references, and its run looks the same from outside. -/
theorem renaming_changes_nothing (host : Host) (verbose : Bool) (taken : List Session.Step)
    {session checked : Session} {text new : String} {statements : List (Stmt Site)} {binder : Token}
    (reached : session.machine.silent =
      ((Session.fresh verbose).after host taken).machine.silent)
    (passed : session.check host text = (checked, .ok statements))
    (isLocal : binder ∈ Stmt.localsOfAll statements) (identifier : IsIdentifier new)
    (fresh : ∀ token ∈ (TokenStream.ofText text).tokens, token.lexeme ≠ new) :
    ∃ rewrite : Token → Token,
      (∀ token : Token,
        token.RenamedWith (Stmt.namingsOfAll binder none statements) new (rewrite token)) ∧
      (TokenStream.ofText (renameVariable text statements binder new)).tokens =
        (TokenStream.ofText text).tokens.map rewrite ∧
      session.check host (renameVariable text statements binder new) =
        (checked, .ok (Stmt.mapAll rewrite id statements)) ∧
      (check host (renameVariable text statements binder new) session.report
          session.recorded).references.map Reference.shape =
        (check host text session.report session.recorded).references.map Reference.shape ∧
      Session.LooksLike (session.run host text)
        (session.run host (renameVariable text statements binder new)) := by
  obtain ⟨healthy, clean, trees, state, accepted⟩ := passed_check (congrArg Prod.snd passed)
  obtain ⟨rewrite, isMap, rewritten, ⟨stateTwin, acceptedTwin, shapes⟩, ordinary, renamed⟩ :=
    accepted.rename isLocal identifier fresh
  have cleanTwin : TokenStream.issuesOf (renameVariable text statements binder new) = [] :=
    issuesOf_respell identifier (accepted.named isLocal) clean
  have sizes : (TokenStream.ofText (renameVariable text statements binder new)).size =
      (TokenStream.ofText text).size := by
    simp only [TokenStream.size, isMap, List.length_map]
  have counts : stateTwin.references.length = state.references.length := by
    simpa using congrArg List.length shapes
  refine ⟨rewrite, rewritten, isMap, ?_, ?_, ?_⟩
  · rw [acceptedTwin.session_check healthy cleanTwin, sizes, counts, List.length_map]
    rw [accepted.session_check healthy clean] at passed
    cases passed
    rfl
  · rw [acceptedTwin.check_eq healthy cleanTwin, accepted.check_eq healthy clean, List.map_reverse,
      List.map_reverse, shapes]
  · have near : ∀ token ∈ Session.tokensRead taken,
        (Renaming.onLines binder.lexeme new ordinary).near token token := fun _ _ => ⟨rfl, rfl⟩
    -- nothing that earlier texts have left on the machine is renamed
    have machineItself : session.machine.Alike (Renaming.onLines binder.lexeme new ordinary) []
        session.machine :=
      (Session.after_itself near).itself reached
    have checked : (session.setSource text).check host text = _ :=
      accepted.session_check healthy clean
    have checkedTwin : (session.setSource (renameVariable text statements binder new)).check host
        (renameVariable text statements binder new) = _ :=
      acceptedTwin.session_check healthy cleanTwin
    rw [Session.run_eq checked, Session.run_eq checkedTwin]
    refine Session.finish_looksLike host ?_ ?_ ?_ renamed
    · exact machineItself
    all_goals
      simp only [Session.setSource, Report.passed_setSource, sizes, counts, List.length_map]
      rfl

/-- After `var a = 0;` has run, the parameter `a` of a function may be called `b`: a function inside
still refers to it, while the variable of the block that shadows it keeps its name. -/
theorem renaming_changes_nothing_parameter :
    let host := Host.standard fun _ => 0
    let session := (Session.fresh false).after host [⟨.run "var a = 0;", true⟩]
    let text :=
      "fun f(a) \x7b fun g() \x7b return a; \x7d a = a + 1; \x7b var a = 5; print a; \x7d " ++
      "print g(); \x7d f(1); print a;"
    let renamed :=
      "fun f(b) \x7b fun g() \x7b return b; \x7d b = b + 1; \x7b var a = 5; print a; \x7d " ++
      "print g(); \x7d f(1); print a;"
    Session.LooksLike (session.run host text) (session.run host renamed) ∧
      (session.run host text).1.machine.printed = ["0", "2", "5"] := by
  intro host session text renamed
  let binder : Token := ⟨⟨1, 6⟩, .identifier, "a"⟩
  have found : (session.check host text).2.toOption.map (fun statements =>
      (decide (binder ∈ Stmt.localsOfAll statements),
        renameVariable text statements binder "b")) = some (true, renamed) := by decide +kernel
  have printed : (session.run host text).1.machine.printed = ["0", "2", "5"] := by decide +kernel
  refine ⟨?_, printed⟩
  cases outcome : session.check host text with
  | mk checked result =>
      rw [outcome] at found
      cases result with
      | error phase => cases found
      | ok statements =>
          have parts := Prod.mk.inj (Option.some.inj found)
          have identifier : IsIdentifier "b" :=
            ⟨⟨'b', [], by decide, by decide, by simp⟩, by decide⟩
          have fresh : ∀ token ∈ (TokenStream.ofText text).tokens, token.lexeme ≠ "b" := by
            decide +kernel
          obtain ⟨_, _, _, _, _, alike⟩ := renaming_changes_nothing host false _ rfl outcome
            (of_decide_eq_true parts.1) identifier fresh
          rwa [parts.2] at alike

end LoxLang
