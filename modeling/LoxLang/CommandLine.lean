import LoxLang.CommandLine.Arguments
import LoxLang.CommandLine.Disk
import LoxLang.Session
import LoxLang.Tree.Notation

/-!
# The command

With a program the command runs it, checks it, or shows its tree; without one it
prompts for lines and runs each as a program of its own.  What goes to the
standard output and what goes to the standard error are two texts.
-/

namespace LoxLang.CommandLine

/-- Write line breaks of all kinds as line feeds. -/
def normalizeBreaks : List Char → List Char
  | [] => []
  | '\r' :: '\n' :: rest => '\n' :: normalizeBreaks rest
  | '\r' :: rest => '\n' :: normalizeBreaks rest
  | c :: rest => c :: normalizeBreaks rest

/-- The text of a file, if it is in UTF-8. -/
def decode? (contents : ByteArray) : Option String :=
  (String.fromUTF8? contents).map fun text => String.ofList (normalizeBreaks text.toList)

/-- How the command ends. -/
inductive Exit where
  | status (code : ExitStatus)
  /-- The program's file is not in UTF-8. -/
  | undecodable
  | interrupted (reason : Stop)
deriving DecidableEq, Repr

/-- How an ending of a run ends the command. -/
def Exit.ofEnding : Ending → Exit
  | .finished code => .status code
  | .interrupted reason => .interrupted reason

/-- How the command ends and what it writes. -/
structure Outcome where
  exit : Exit
  out : String
  err : String
deriving DecidableEq, Repr

namespace Outcome

/-- An outcome of which the session holds what was written. -/
def ofSession (session : Session) (exit : Exit) : Outcome :=
  ⟨exit, session.machine.printedText, session.report.text⟩

end Outcome

/-- The line that tells the usage of a command of this name. -/
def usageLine (command : String) : String :=
  "usage: " ++ command ++ " [-h] [-c] [-p] [-v] [program]\n"

/-- The outcome of a usage error. -/
def refuse (command : String) (error : UsageError) : Outcome :=
  ⟨.status .usage, "", usageLine command ++ command ++ ": error: " ++ error.message ++ "\n"⟩

/-- The outcome for a file that cannot be read. -/
def unreadable (shown : String) (error : ReadError) : Outcome :=
  ⟨.status .noInput, "", "Something went pear-shaped while trying to read " ++ shown ++ ": " ++
    error.message ++ "\n"⟩

/-- The trees of statements, one in a line. -/
def treeLines (statements : List (Stmt Site)) : String :=
  String.join (statements.map fun statement => (Notation.stmt statement).getD "" ++ "\n")

/-- What is said of a program that is only checked, and found in order. -/
def praise : String := "Looks plausible to me.\n"

/-- Check a program, and show its trees or say that all is well. -/
def checkProgram (host : Host) (request : Request) (text : String) : Outcome :=
  match ((Session.fresh request.verbose).setSource text).check host text with
  | (session, .error _) => .ofSession session (.status .dataError)
  | (session, .ok statements) =>
      if request.printTree then
        ⟨.status .ok, treeLines statements, session.report.text⟩
      else
        ⟨.status .ok, "", session.report.text ++ praise⟩

/-- Run a program. -/
def runProgram (host : Host) (request : Request) (text : String) : Outcome :=
  match (Session.fresh request.verbose).run host text with
  | (session, ending) => .ofSession session (.ofEnding ending)

/-- Do what is asked for with the contents of a program's file. -/
def onProgram (host : Host) (request : Request) (contents : ByteArray) : Outcome :=
  match decode? contents with
  | none => ⟨.undecodable, "", ""⟩
  | some text =>
      if request.check || request.printTree then checkProgram host request text
      else runProgram host request text

/-- What is written before a line is read. -/
def promptMark : String := "> "

/-- Run one line at the prompt.  The session holds only what this line prints and says. -/
def promptLine (host : Host) (session : Session) (line : String) : Session × Ending :=
  session.silent.reset.run host line

/-- Run lines at the prompt, one after the other.  A line feed ends the prompt. -/
def prompt (host : Host) (session : Session) (out err : String) : List String → Outcome
  | [] => ⟨.status .ok, out ++ promptMark ++ "\n", err⟩
  | line :: rest =>
      match promptLine host session line with
      | (session, ending) =>
          let out := out ++ promptMark ++ session.machine.printedText
          let err := err ++ session.report.text
          match ending with
          | .interrupted reason => ⟨.interrupted reason, out, err⟩
          | .finished _ => prompt host session out err rest

/-- The lines of an input; a last line need not end with a break. -/
def inputLines (input : String) : List String :=
  let lines := (String.ofList (normalizeBreaks input.toList)).splitOn "\n"
  if lines.getLast? = some "" then lines.dropLast else lines

/-- The command of a given name, with arguments, in a working directory, and with an input. -/
def command (host : Host) (name : String) (arguments : List String) (workingDirectory : String)
    (disk : Disk) (input : String) : Outcome :=
  match Request.ofArguments arguments with
  | .error error => refuse name error
  | .ok request =>
      if request.help then ⟨.status .ok, usageLine name, ""⟩
      else
        match request.program with
        | none => prompt host (Session.fresh request.verbose) "" "" (inputLines input)
        | some path =>
            match disk.read path with
            | .error error => unreadable (shownPath workingDirectory path) error
            | .ok contents => onProgram host request contents

end LoxLang.CommandLine
