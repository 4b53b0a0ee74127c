import LoxLang.CommandLine

/-!
# The program

Reads the command line, the program's file and the standard input, and writes
what `LoxLang.CommandLine` answers.
-/

namespace LoxLang

open CommandLine

/-- Why the system refuses to read a file.  Of the refusals for what has the wrong type, number 21
is for a folder that was to be read, and the others are for a file in the place of a folder.  The
one argument that may be refused for its form is the path, when a name in it is too long. -/
def readErrorOf : IO.Error → ReadError
  | .noFileOrDirectory .. => .missing
  | .inappropriateType _ 21 _ => .isFolder
  | .inappropriateType .. => .notFolder
  | .invalidArgument .. => .nameTooLong
  | .permissionDenied _ _ details => .other details
  | error => .other (toString error)

/-- Write an outcome, and yield the number with which the program ends. -/
def deliver (outcome : Outcome) : IO UInt32 := do
  IO.print outcome.out
  IO.eprint outcome.err
  match outcome.exit with
  | .status code => return code.code.toUInt32
  | .undecodable | .interrupted _ => return 1

/-- Prompt for lines until there are no more. -/
partial def promptLoop (session : Session) : IO UInt32 := do
  IO.print promptMark
  (← IO.getStdout).flush
  let line ← (← IO.getStdin).getLine
  if line.isEmpty then
    IO.println ""
    return 0
  let seconds := (← IO.monoMsNow).toFloat / 1000
  let text := (inputLines line).headD ""
  let (ran, _) := promptLine (.standard (Host.clockFrom seconds)) session text
  IO.print ran.machine.printedText
  IO.eprint ran.report.text
  promptLoop ran

/-- Do what the arguments ask for. -/
def serve (name : String) (arguments : List String) : IO UInt32 := do
  match Request.ofArguments arguments with
  | .error error => deliver (refuse name error)
  | .ok request =>
      if request.help then deliver ⟨.status .ok, usageLine name, ""⟩
      else
        match request.program with
        | none => promptLoop (Session.fresh request.verbose)
        | some path =>
            let shown := shownPath (toString (← IO.currentDir)) path
            match ← (IO.FS.readBinFile shown).toBaseIO with
            | .error error => deliver (unreadable shown (readErrorOf error))
            | .ok contents =>
                let seconds := (← IO.monoMsNow).toFloat / 1000
                deliver (onProgram (.standard (Host.clockFrom seconds)) request contents)

end LoxLang

/-- The entry point. -/
def main (arguments : List String) : IO UInt32 :=
  LoxLang.serve "lox" arguments
