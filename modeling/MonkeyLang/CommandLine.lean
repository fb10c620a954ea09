import MonkeyLang.Console
import MonkeyLang.Text.Digit
import MonkeyLang.Text.Escaped

/-!
# The command line

The program takes at most one argument, the name of a script.  Without one it holds a conversation.

## Main Definitions

* `Invocation` — what the arguments ask for
* `Invocation.ofArguments` — reads the arguments
* `Report` — what a run leaves behind: its ending, its output and its complaints
* `scriptReport`, `consoleReport` — the reports of a script and of a conversation
* `perform` — carries an invocation out, given the files and what is typed

## Design Notes

An argument that begins with a hyphen is an option.  So is none of these: a lone hyphen, a negative
number, an argument with a blank in it.  The only option asks for help; it may be cut short, as
`--he`, and takes effect as soon as it is met.  A double hyphen ends the options.
-/

namespace MonkeyLang

/-! ### Arguments -/

/-- What the arguments ask for. -/
inductive Invocation where
  | script (file : String)
  | conversation
  | help
  /-- The arguments make no sense, for this reason. -/
  | misuse (reason : String)
deriving DecidableEq

/-- What one argument before a double hyphen is. -/
inductive Argument where
  | help
  /-- The option for help, with a text that it does not take. -/
  | helpWith (text : List Char)
  | unknownOption
  | operand
deriving DecidableEq

namespace Argument

/-- A number without a sign: decimal digits, perhaps with a point before the last of them. -/
def isNumber (text : List Char) : Bool :=
  let whole := text.takeWhile Text.isDecimal
  match text.dropWhile Text.isDecimal with
  | [] => !whole.isEmpty
  | '.' :: fraction => !fraction.isEmpty && fraction.all Text.isDecimal
  | _ => false

/-- A negative number: a hyphen and a number, perhaps with a newline behind it. -/
def isNegativeNumber : List Char → Bool
  | '-' :: text => isNumber (Text.dropNewline text)
  | _ => false

/-- The short option for help with letters behind it: more of the same option is harmless. -/
def shortHelp (tail : List Char) : Argument :=
  match tail.dropWhile (· == 'h') with
  | [] => help
  | text => helpWith text

/-- The option for help as it is spelled out. -/
def longHelp : List Char := "--help".toList

/-- Recognises an argument that no double hyphen precedes. -/
def ofChars (argument : List Char) : Argument :=
  match argument with
  | '-' :: '-' :: _ =>
    if (argument.takeWhile (· != '=')).isPrefixOf longHelp then
      match argument.dropWhile (· != '=') with
      | [] => help
      | _ :: text => helpWith text
    else if ' ' ∈ argument then operand
    else unknownOption
  | ['-', 'h', '='] => helpWith []
  | '-' :: 'h' :: '=' :: tail => shortHelp tail
  | '-' :: 'h' :: tail => shortHelp tail
  | '-' :: _ :: _ =>
    if isNegativeNumber argument || ' ' ∈ argument then operand else unknownOption
  | _ => operand

end Argument

namespace Invocation

/-- The complaint about a text that the option for help does not take. -/
def ignored (text : List Char) : Invocation :=
  .misuse ("argument -h/--help: ignored explicit argument " ++ Text.quoteEscaped text)

/-- The invocation when all arguments are read: the operand found, if any, and the arguments left
over. -/
def finish (file : Option String) (extras : List String) : Invocation :=
  if extras.isEmpty then
    match file with
    | some file => .script file
    | none => .conversation
  else .misuse ("unrecognized arguments: " ++ " ".intercalate extras)

/-- Reads the arguments from left to right.  The first operand names the script. -/
def read (file : Option String) (extras : List String) : List String → Invocation
  | [] => finish file extras
  | argument :: rest =>
    if argument = "--" then
      match file, rest with
      | none, [] => finish none extras
      | none, operand :: others => finish (some operand) (extras ++ others)
      | some file, rest => finish (some file) (extras ++ "--" :: rest)
    else
      match Argument.ofChars argument.toList with
      | .help => .help
      | .helpWith text => ignored text
      | .unknownOption => read file (extras ++ [argument]) rest
      | .operand =>
        match file, rest with
        | some file, rest => read (some file) (extras ++ [argument]) rest
        -- A double hyphen right behind the script's name belongs to it.
        | none, "--" :: others => finish (some argument) (extras ++ others)
        | none, rest => read (some argument) extras rest

/-- What the arguments ask for. -/
def ofArguments (arguments : List String) : Invocation := read none [] arguments

end Invocation

/-! ### Reports -/

/-- How a run ends. -/
inductive Ending where
  | exit (code : UInt32)
  /-- The script or the conversation breaks off. -/
  | broken (failure : FileFailure)

/-- What a run leaves behind. -/
structure Report where
  ending : Ending
  output : String := ""
  complaints : String := ""

/-- The text for a run that breaks off. -/
def FileFailure.describe : FileFailure → String
  | .unreachable .missing => "there is no such file"
  | .unreachable .folder => "this is a folder"
  | .unreachable .notAFolder => "the path goes on behind a file"
  | .unreachable .tooLong => "the path is too long"
  | .unreachable .impossible => "no path holds a null character"
  | .notText => "the file is not UTF-8 text"
  | .rejected (.unreadable .overlongInteger) => "an integer literal has too many digits"
  | .rejected (.unreadable .exhausted) => "the source is nested too deeply"
  | .rejected (.syntaxErrors errors) => joinMessages errors

/-- The exit status of a run. -/
def Ending.status : Ending → UInt32
  | .exit code => code
  | .broken _ => 1

/-- How the program is called. -/
def usage : String := "usage: monkey [-h] [file]\n"

/-- The text of the help. -/
def helpText : String :=
  usage ++ "\nThe Monkey Programming Language\n\npositional arguments:\n  file\n\n" ++
    "options:\n  -h, --help  show this help message and exit\n"

/-- The lines that report a rejected source: one for each line of its errors. -/
def complaintLines (errors : List SyntaxError) : String :=
  String.join ((Text.splitLines (joinMessages errors).toList).map fun line =>
    "error: " ++ String.ofList line ++ "\n")

/-- The line that reports a runtime error. -/
def complaintLine (e : RuntimeError) : String :=
  match e.location with
  | some l => "[" ++ l.describe ++ "] error: " ++ e.message ++ "\n"
  | none => "error: " ++ e.message ++ "\n"

/-- The report of a script: a value is not shown, an error is. -/
def scriptReport (name : String) (contents : Except PathFailure ByteArray)
    (limit : Nat := depthLimit) : Report :=
  let (result, m) := runFile name contents 0 { scopes := Scopes.empty.create none } limit
  match result with
  | .ok (some (.error e)) => ⟨.exit 1, m.output, complaintLine e⟩
  | .ok _ => ⟨.exit 0, m.output, ""⟩
  | .error (.rejected (.syntaxErrors errors)) => ⟨.exit 1, m.output, complaintLines errors⟩
  | .error failure => ⟨.broken failure, m.output, ""⟩

/-- The report of a conversation.  It ends with the line of the last prompt. -/
def consoleReport (typed : String) (limit : Nat := depthLimit) : Report :=
  let lines := (Text.typedLines typed.toList).map String.ofList
  match (Console.start limit).converse lines with
  | (none, c) => ⟨.exit 0, c.machine.output, "\n"⟩
  | (some failure, c) => ⟨.broken (.rejected (.unreadable failure)), c.machine.output, ""⟩

/-- Carries an invocation out, with what is known of files and with the typed text. -/
def perform (files : String → Except PathFailure ByteArray) (typed : String)
    (invocation : Invocation) (limit : Nat := depthLimit) : Report :=
  match invocation with
  | .script file => scriptReport file (files file) limit
  | .conversation => consoleReport typed limit
  | .help => ⟨.exit 0, helpText, ""⟩
  | .misuse reason => ⟨.exit 2, "", usage ++ "monkey: error: " ++ reason ++ "\n"⟩

end MonkeyLang
