import LoxLang.Proofs.Parser.Exactness
import LoxLang.Proofs.Session.Phases
import LoxLang.Proofs.Words

/-!
# Accepted texts

A text is accepted if no phase of its check finds anything wrong.  Its statements
then obey the grammar, their names are spelled as names are, and the pass through
their scopes has not complained.
-/

namespace LoxLang

namespace Report

@[simp] theorem addIssues_nil (report : Report) : report.addIssues [] = report := by
  simp [addIssues, say]

/-- What a report says once a text has passed its check. -/
def passed (report : Report) (tokens statements references : Nat) : Report :=
  ((report.note ("Scanned " ++ toString tokens ++ " tokens")).note
    ("Parsed " ++ toString statements ++ " top-level statements")).note
    ("Resolved " ++ toString references ++ " local references")

/-- The registered text makes no difference to what is said then. -/
theorem passed_setSource (report : Report) (text : String) (tokens statements references : Nat) :
    (report.setSource text).passed tokens statements references =
      (report.passed tokens statements references).setSource text := by
  have noteSource (report : Report) (words : String) :
      (report.setSource text).note words = (report.note words).setSource text := by
    obtain ⟨verbose, source, issues, hadRuntimeError, transcript⟩ := report
    cases verbose <;> rfl
  simp only [passed, noteSource]

end Report

/-- What is known of a text that is accepted: how its tokens were read without complaint, and how
the scopes of its trees were worked out without complaint. -/
structure Accepted (host : Host) (text : String) (statements : List (Stmt Site))
    (trees : List (Stmt Unit)) (state : ScopeState) : Prop where
  read : (parseWithin host.nesting (TokenStream.ofText text).tokens).statements = some trees
  quiet : (parseWithin host.nesting (TokenStream.ofText text).tokens).complaints = []
  resolved : Scoping.each (Scoping.stmt host.scopeRoom) trees ScopeState.start =
    .ok statements state
  harmless : state.complaints = []

theorem resolveWithin_eq_some {room : Nat} {trees : List (Stmt Unit)}
    {statements : List (Stmt Site)}
    (resolved : (resolveWithin room trees).statements = some statements) :
    ∃ state, Scoping.each (Scoping.stmt room) trees ScopeState.start = .ok statements state ∧
      (resolveWithin room trees).complaints = state.complaints.reverse := by
  unfold resolveWithin at resolved ⊢
  cases outcome : Scoping.each (Scoping.stmt room) trees ScopeState.start with
  | ok found state =>
      rw [outcome] at resolved
      cases resolved
      exact ⟨state, rfl, rfl⟩
  | error stop state =>
      rw [outcome] at resolved
      cases resolved

/-- A text passes its check only if it is accepted, nothing is wrong with its lexemes, and nothing
was reported before. -/
theorem passed_check {host : Host} {text : String} {report : Report} {recorded : Nat}
    {statements : List (Stmt Site)}
    (passed : (check host text report recorded).outcome = .ok statements) :
    report.issues = [] ∧ TokenStream.issuesOf text = [] ∧
      ∃ trees state, Accepted host text statements trees state := by
  cases read : (parseWithin host.nesting (TokenStream.ofText text).tokens).statements with
  | none =>
      rw [check_eq_of_unread read] at passed
      cases passed
  | some trees =>
      obtain ⟨_, _, _, ends⟩ | ⟨_, _, _, ends⟩ | ⟨_, _, _, ends⟩ |
          ⟨_, _, healthy, found, resolution, ends⟩ := check_cases report recorded read
      all_goals
        rw [ends] at passed
        cases passed
      obtain ⟨state, resolved, complaintsEq⟩ := resolveWithin_eq_some resolution
      rw [Report.sick_eq_false_iff, report.issues_afterResolve read resolution] at healthy
      simp only [List.append_eq_nil_iff] at healthy
      obtain ⟨⟨⟨unreported, noLexical⟩, noComplaints⟩, noScope⟩ := healthy
      refine ⟨unreported, noLexical, trees, state, read, List.map_eq_nil_iff.1 noComplaints,
        resolved, ?_⟩
      rw [← List.reverse_eq_nil_iff, ← complaintsEq]
      exact List.map_eq_nil_iff.1 noScope

/-- Whatever was reported before, a text passes its check only if it is accepted. -/
theorem Accepted.of_check {host : Host} {text : String} {report : Report} {recorded : Nat}
    {statements : List (Stmt Site)}
    (passed : (check host text report recorded).outcome = .ok statements) :
    ∃ trees state, Accepted host text statements trees state :=
  (passed_check passed).2.2

namespace Accepted

variable {host : Host} {text : String} {statements : List (Stmt Site)} {trees : List (Stmt Unit)}
  {state : ScopeState}

/-- Conversely, a text that is accepted passes its check. -/
theorem check_eq (accepted : Accepted host text statements trees state) {report : Report}
    (healthy : report.issues = []) (clean : TokenStream.issuesOf text = []) (recorded : Nat) :
    check host text report recorded =
      ⟨.ok statements,
        report.passed (TokenStream.ofText text).size trees.length
          (recorded + state.references.length),
        state.references.reverse⟩ := by
  have resolution : resolveWithin host.scopeRoom trees =
      ⟨some statements, [], state.references.reverse⟩ := by
    simp [resolveWithin, accepted.resolved, accepted.harmless]
  simp [check, Report.scan, clean, accepted.read, Report.sick, healthy, Report.parse, Parse.issues,
    accepted.quiet, resolution, Report.resolve, Resolution.issues, Report.passed]

theorem session_check (accepted : Accepted host text statements trees state) {session : Session}
    (healthy : session.report.issues = []) (clean : TokenStream.issuesOf text = []) :
    session.check host text =
      ({ session with
          report := session.report.passed (TokenStream.ofText text).size trees.length
            (session.recorded + state.references.length)
          recorded := session.recorded + state.references.length },
        .ok statements) := by
  simp [Session.check, accepted.check_eq healthy clean]

theorem grammatical (accepted : Accepted host text statements trees state) :
    ∀ tree ∈ trees, tree.Grammatical .list :=
  (parseWithin_listReadFrom accepted.read accepted.quiet).grammatical

/-- The trees are made of tokens of the text. -/
theorem worded (accepted : Accepted host text statements trees state) :
    ∀ tree ∈ trees, ∀ token ∈ tree.tokens, token.Worded := by
  intro tree member token inTree
  have listRead := parseWithin_listReadFrom accepted.read accepted.quiet
  have inAll : token ∈ Stmt.tokensOfAll trees := by
    rw [Stmt.tokensOfAll_eq_flatMap]
    exact List.mem_flatMap.2 ⟨tree, member, inTree⟩
  exact TokenStream.worded (listRead.tokens_subset inAll)

end Accepted

end LoxLang
