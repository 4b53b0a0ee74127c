import LoxLang.Machine
import LoxLang.Parser
import LoxLang.Report
import LoxLang.Scope.Resolve
import LoxLang.Token.Stream

/-!
# Checking a text

A text is checked in three phases: its tokens, its statements, its scopes.  Each
phase adds to the report what it finds.  Trouble with tokens does not keep the
parser from looking for more, but scopes are worked out only for a text without
issues.  The first phase after which the report is sick is the one that failed.
-/

namespace LoxLang

/-- The phases of a check. -/
inductive Phase where
  | scan | parse | resolve
deriving DecidableEq, Repr

namespace Phase

/-- The name of a phase. -/
def name : Phase → String
  | scan => "scan"
  | parse => "parse"
  | resolve => "resolve"

end Phase

/-- Read a text into tokens, and report on it. -/
def Report.scan (report : Report) (text : String) : TokenStream × Report :=
  let stream := TokenStream.ofText text
  let report := report.addIssues (TokenStream.issuesOf text)
  (stream, report.note ("Scanned " ++ toString stream.size ++ " tokens"))

/-- What is said of a text whose parts lie too deep inside one another. -/
def tooDeepMessage : String := "Program is nested too deeply."

/-- Report that a text which ends at the given mark is nested too deep. -/
def Report.addTooDeep (report : Report) (stop : Mark) : Report :=
  report.addIssues [Issue.atEnd stop tooDeepMessage]

/-- Report what the parser found wrong with the tokens of a text, and how far it came. -/
def Report.parse (report : Report) (stream : TokenStream) (result : Parse) : Report :=
  let report := report.addIssues (result.issues stream.stop)
  match result.statements with
  | some statements =>
      report.note ("Parsed " ++ toString statements.length ++ " top-level statements")
  | none => report.addTooDeep stream.stop

/-- Report what is wrong with the scopes of a text; `recorded` counts all references of which the
scope has been found, in this text and before. -/
def Report.resolve (report : Report) (stream : TokenStream) (resolution : Resolution)
    (recorded : Nat) : Report :=
  let report := report.addIssues resolution.issues
  match resolution.statements with
  | some _ => report.note ("Resolved " ++ toString recorded ++ " local references")
  | none => report.addTooDeep stream.stop

/-- The outcome of a check: the statements, or the phase that failed, with the report and the
references found. -/
structure Checked where
  outcome : Except Phase (List (Stmt Site))
  report : Report
  references : List Reference

/-- Check a text.  `recorded` counts the references found in earlier texts. -/
def check (host : Host) (text : String) (report : Report) (recorded : Nat) : Checked :=
  let (stream, scanned) := report.scan text
  let result := parseWithin host.nesting stream.tokens
  let parsed := scanned.parse stream result
  match result.statements with
  | none => ⟨.error .parse, parsed, []⟩
  | some statements =>
      if scanned.sick then ⟨.error .scan, parsed, []⟩
      else if parsed.sick then ⟨.error .parse, parsed, []⟩
      else
        let resolution := resolveWithin host.scopeRoom statements
        let resolved :=
          parsed.resolve stream resolution (recorded + resolution.references.length)
        let outcome := match resolution.statements with
          | none => .error .resolve
          | some resolvedStatements =>
              if resolved.sick then .error .resolve else .ok resolvedStatements
        ⟨outcome, resolved, resolution.references⟩

end LoxLang
