import MonkeyLang.Script

/-!
# The console

A conversation line by line: a line that completes a source is answered at once, others wait for
more lines.

## Main Definitions

* `Console` — a machine, a scope and a depth limit that all answers share, and the lines that wait
* `Console.push` — takes one line
* `Console.converse` — takes lines as long as there are some, with a prompt before each

## Design Notes

Lines wait as long as together they have a syntax error.  An empty line behind a waiting one gives
up: the errors are shown and the lines are dropped.

What the console says goes to the output of its machine, among what the program writes.
-/

namespace MonkeyLang

/-- A conversation under way. -/
structure Console where
  machine : Machine
  scope : ScopeId
  /-- Lines that are no complete source yet. -/
  pending : List String := []
  /-- How deeply the evaluations of an answer may nest. -/
  limit : Nat := depthLimit

/-- What comes of a line. -/
inductive Turn where
  /-- The line was answered. -/
  | answered
  /-- More lines are needed. -/
  | waiting
  /-- The source cannot be read at all, and the conversation ends. -/
  | aborted (failure : ParseFailure)
deriving DecidableEq

namespace Console

/-- A new conversation, in a scope of its own. -/
def start (limit : Nat := depthLimit) : Console :=
  { machine := { scopes := Scopes.empty.create none }, scope := 0, limit := limit }

/-- Adds text to the output. -/
def say (c : Console) (text : String) : Console :=
  { c with machine := c.machine.write text }

/-- Shows syntax errors, each on an indented line. -/
def complain (c : Console) (errors : List SyntaxError) : Console :=
  errors.foldl (fun c e => c.say ("\t" ++ e.message ++ "\n")) c

/-- Runs a program in the scope of the conversation, and shows its value if it has one. -/
def run (c : Console) (program : Program Token) : Console :=
  let (outcome, machine) := runProgram c.limit c.scope program c.machine
  let c := { c with machine := machine }
  match outcome with
  | .tooDeep => c.say ("error: " ++ Fault.tooDeep.message ++ "\n")
  | outcome =>
    match outcome.result with
    | some v => c.say (v.render ++ "\n")
    | none => c

/-- Whether a text ends in a newline. -/
def endsInNewline (text : String) : Bool := text.toList.getLast? == some '\n'

/-- Takes a line. -/
def push (c : Console) (line : String) : Turn × Console :=
  let pending := c.pending ++ [line]
  let source := "\n".intercalate pending
  let waiting := { c with pending := pending }
  let cleared := { c with pending := [] }
  match parse source with
  | .error failure => (.aborted failure, waiting)
  | .ok p =>
    if p.errors.isEmpty then (.answered, cleared.run p.statements)
    else if endsInNewline source then (.answered, cleared.complain p.errors)
    else (.waiting, waiting)

/-- The prompt for a line. -/
def prompt (c : Console) : String := if c.pending.isEmpty then ">> " else ".. "

/-- Takes lines until there are no more, or until one aborts the conversation. -/
def converse (c : Console) (lines : List String) : Option ParseFailure × Console :=
  let c := c.say c.prompt
  match lines with
  | [] => (none, c)
  | line :: rest =>
    match c.push line with
    | (.aborted failure, c) => (some failure, c)
    | (_, c) => converse c rest

end Console

end MonkeyLang
