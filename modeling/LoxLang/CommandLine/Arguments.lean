import LoxLang.Text.Digit
import LoxLang.Text.Quoted

/-!
# Command-line arguments

The command takes one operand, the program's file, and four flags, which may
stand anywhere.  A flag has a short name, a dash and a letter, and a long name,
two dashes and a word, which may be cut short as far as it is clear.  Short names
may be joined behind one dash.  No flag takes an argument.  After an argument of
two dashes alone everything is an operand.
-/

namespace LoxLang.CommandLine

/-- The flags. -/
inductive Flag where
  | help | check | printTree | verbose
deriving DecidableEq, Repr

namespace Flag

/-- All flags, in the order in which the usage shows them. -/
def all : List Flag := [help, check, printTree, verbose]

/-- The letter of the short name. -/
def letter : Flag → Char
  | help => 'h'
  | check => 'c'
  | printTree => 'p'
  | verbose => 'v'

/-- The short name. -/
def shortName (flag : Flag) : String := String.ofList ['-', flag.letter]

/-- The long name. -/
def longName : Flag → String
  | help => "--help"
  | check => "--check"
  | printTree => "--print-ast"
  | verbose => "--verbose"

/-- Both names, as errors show them. -/
def names (flag : Flag) : String := flag.shortName ++ "/" ++ flag.longName

/-- The flag with this short letter. -/
def ofLetter? (letter : Char) : Option Flag := all.find? (·.letter = letter)

/-- The flags whose long names begin like this. -/
def beginningWith (start : String) : List Flag :=
  all.filter fun flag => start.toList.isPrefixOf flag.longName.toList

end Flag

/-- What is wrong with the arguments. -/
inductive UsageError where
  /-- A flag was given an argument that it does not take. -/
  | needlessArgument (flag : Flag) (argument : String)
  /-- A long name was cut too short. -/
  | ambiguous (argument : String) (candidates : List Flag)
  | unrecognized (arguments : List String)
deriving DecidableEq, Repr

namespace UsageError

/-- The wording of the error. -/
def message : UsageError → String
  | needlessArgument flag argument =>
      "argument " ++ flag.names ++ ": ignored explicit argument " ++ Text.quoted argument
  | ambiguous argument candidates =>
      "ambiguous option: " ++ argument ++ " could match " ++
        String.intercalate ", " (candidates.map Flag.longName)
  | unrecognized arguments =>
      "unrecognized arguments: " ++ String.intercalate " " arguments

end UsageError

/-- What an argument is. -/
inductive Argument where
  /-- A flag by its short name with more behind it, or by its long name with an argument. -/
  | flag (flag : Flag) (isShort : Bool) (attached : Option (List Char))
  /-- Something that looks like a flag and is none. -/
  | unknown (text : String)
  /-- The two dashes after which there are only operands. -/
  | separator
  | operand (text : String)
deriving DecidableEq, Repr

namespace Argument

/-- Whether characters are decimal digits, at least one. -/
def isNumeral (chars : List Char) : Bool := !chars.isEmpty && chars.all Text.isDecimalDigit

/-- Whether characters are a numeral, or a point and a numeral that may have digits before them. -/
def isDecimal (chars : List Char) : Bool :=
  isNumeral chars ||
    (match chars.dropWhile Text.isDecimalDigit with
      | '.' :: fraction => isNumeral fraction
      | _ => false)

/-- The characters without one line feed at their end. -/
def dropLineFeed (chars : List Char) : List Char :=
  if chars.getLast? = some '\n' then chars.dropLast else chars

/-- Whether a text after a dash is a negative number, which is an operand.  The digits may be of any
script, and one line feed may follow the number. -/
def looksNegative (chars : List Char) : Bool := isDecimal (dropLineFeed chars)

/-- Split at the first equals sign, if there is one. -/
def splitAtEqual (chars : List Char) : List Char × Option (List Char) :=
  match chars.dropWhile (· != '=') with
  | [] => (chars, none)
  | _ :: after => (chars.takeWhile (· != '='), some after)

/-- An argument that begins with a dash and names no flag. -/
def withoutFlag (text : String) : Argument :=
  if looksNegative (text.toList.drop 1) || text.toList.contains ' ' then operand text
  else unknown text

/-- What an argument is that stands before any separator. -/
def classify (text : String) : Except UsageError Argument :=
  match text.toList with
  | '-' :: '-' :: [] => .ok separator
  | '-' :: '-' :: _ =>
      let (name, attached) := splitAtEqual text.toList
      match Flag.all.find? (·.longName.toList = name) with
      | some exact => .ok (flag exact false attached)
      | none =>
          match Flag.beginningWith (String.ofList name) with
          | [] => .ok (withoutFlag text)
          | [only] => .ok (flag only false attached)
          | several => .error (.ambiguous text several)
  | '-' :: letter :: rest =>
      match Flag.ofLetter? letter with
      | none => .ok (withoutFlag text)
      | some short =>
          match rest with
          | [] => .ok (flag short true none)
          | '=' :: attached => .ok (flag short true (some attached))
          | _ => .ok (flag short true (some rest))
  | _ => .ok (operand text)

/-- What each of the arguments is. -/
def classifyAll : List String → Except UsageError (List Argument)
  | [] => .ok []
  | text :: rest => do
      match ← classify text with
      | separator => return separator :: rest.map operand
      | other => return other :: (← classifyAll rest)

end Argument

/-- What the arguments ask for. -/
structure Request where
  program : Option String
  help : Bool
  check : Bool
  printTree : Bool
  verbose : Bool
deriving DecidableEq, Repr

namespace Request

/-- What no arguments ask for. -/
def empty : Request := ⟨none, false, false, false, false⟩

/-- Ask for what a flag stands for. -/
def add (request : Request) : Flag → Request
  | .help => { request with help := true }
  | .check => { request with check := true }
  | .printTree => { request with printTree := true }
  | .verbose => { request with verbose := true }

/-- The flags that are joined behind one dash.  The first is known; the rest are letters. -/
def joinedFlags (first : Flag) : List Char → Except UsageError (List Flag)
  | [] => .ok [first]
  | letter :: rest =>
      match Flag.ofLetter? letter with
      | some next => do
          let more ← joinedFlags next rest
          return first :: more
      | none => .error (.needlessArgument first (String.ofList (letter :: rest)))

/-- The flags that one argument stands for. -/
def flagsOf (flag : Flag) (isShort : Bool) : Option (List Char) → Except UsageError (List Flag)
  | none => .ok [flag]
  | some attached =>
      if isShort && !attached.isEmpty then joinedFlags flag attached
      else .error (.needlessArgument flag (String.ofList attached))

/-- Where the reading of operands stands: the program is still to come, was the last argument, or
came earlier. -/
inductive Slot where
  | free | justFilled | filled
deriving DecidableEq, Repr

/-- Go through the arguments from left to right.  What is asked for by `help` comes before
everything that follows it. -/
def collect (request : Request) (slot : Slot) (extras : List String) :
    List Argument → Except UsageError Request
  | [] => if extras.isEmpty then .ok request else .error (.unrecognized extras)
  | .flag flag isShort attached :: rest => do
      let flags ← flagsOf flag isShort attached
      let request := flags.foldl add request
      if request.help then return request
      else collect request (if slot = .free then .free else .filled) extras rest
  | .unknown text :: rest =>
      collect request (if slot = .free then .free else .filled) (extras ++ [text]) rest
  | .separator :: rest =>
      match slot with
      | .free => collect request .free extras rest
      | .justFilled => collect request .filled extras rest
      | .filled => collect request .filled (extras ++ ["--"]) rest
  | .operand text :: rest =>
      match slot with
      | .free => collect { request with program := some text } .justFilled extras rest
      | _ => collect request .filled (extras ++ [text]) rest

/-- What a list of arguments asks for. -/
def ofArguments (arguments : List String) : Except UsageError Request := do
  collect empty .free [] (← Argument.classifyAll arguments)

end Request

end LoxLang.CommandLine
