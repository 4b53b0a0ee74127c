import LoxLang.Issue
import LoxLang.Report.Illustration

/-!
# Reports

A report collects the issues of a text, remembers whether a run ended with an
error, and keeps a transcript of all that was said.  A verbose report says more:
notes on the progress, and an illustration after each issue whose place is
known.  Apart from these the transcript does not depend on verbosity.
-/

namespace LoxLang

/-- One thing said in a transcript. -/
inductive Message where
  | note (words : String)
  | issue (it : Issue)
  | illustration (shown : Illustration)
  | runtimeError (message : String) (line : Nat)
deriving DecidableEq, Repr

namespace Message

/-- The lines of a message. -/
def text : Message → String
  | note words => words ++ "\n"
  | issue it => it.announcement ++ "\n"
  | illustration shown => shown.text ++ "\n"
  | runtimeError message line => message ++ "\n[line " ++ toString line ++ "]\n"

/-- The lines of several messages. -/
def textOfAll (messages : List Message) : String :=
  String.join (messages.map text)

end Message

/-- What is known to be wrong, and what was said about it. -/
structure Report where
  verbose : Bool
  source : Option (List Char)
  issues : List Issue
  hadRuntimeError : Bool
  transcript : List Message
deriving DecidableEq, Repr

namespace Report

/-- A report on nothing yet. -/
def fresh (verbose : Bool) : Report := ⟨verbose, none, [], false, []⟩

/-- Whether an issue is known. -/
def sick (report : Report) : Bool := !report.issues.isEmpty

/-- Forget the issues and the run-time error.  The source and the transcript stay. -/
def reset (report : Report) : Report :=
  { report with issues := [], hadRuntimeError := false }

/-- Register the text to be shown in illustrations. -/
def setSource (report : Report) (text : String) : Report :=
  { report with source := some text.toList }

/-- Say something. -/
def say (report : Report) (messages : List Message) : Report :=
  { report with transcript := report.transcript ++ messages }

/-- Say how far things have come; only a verbose report does. -/
def note (report : Report) (text : String) : Report :=
  if report.verbose then report.say [.note text] else report

/-- The illustration that goes with an issue in this report. -/
def illustrationOf (report : Report) (issue : Issue) : Option Illustration :=
  match report.verbose, report.source, issue.spot with
  | true, some source, some spot => some (Illustration.ofSpot source spot issue.width)
  | _, _, _ => none

/-- What is said about an issue. -/
def messagesOf (report : Report) (issue : Issue) : List Message :=
  match report.illustrationOf issue with
  | some illustration => [.issue issue, .illustration illustration]
  | none => [.issue issue]

/-- Record issues, and announce each. -/
def addIssues (report : Report) (issues : List Issue) : Report :=
  { report.say (issues.flatMap report.messagesOf) with issues := report.issues ++ issues }

/-- Announce a run-time error and remember that there was one. -/
def addRuntimeError (report : Report) (message : String) (line : Nat) : Report :=
  { report.say [.runtimeError message line] with hadRuntimeError := true }

/-- The report with an empty transcript, after what was said has been written out. -/
def silent (report : Report) : Report := { report with transcript := [] }

/-- All that was said. -/
def text (report : Report) : String := Message.textOfAll report.transcript

end Report

end LoxLang
