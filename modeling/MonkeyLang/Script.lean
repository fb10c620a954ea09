import MonkeyLang.Evaluation
import MonkeyLang.Folder
import MonkeyLang.Program.Parse
import MonkeyLang.Text.Lines

/-!
# Scripts

A script is read as a whole and then run; with a syntax error nothing of it is run.

## Main Definitions

* `Rejection` — why a source is not run
* `depthLimit` — how deeply evaluations may nest if nobody asks for another limit
* `Outcome.result` — what the outcome of a program amounts to as a value
* `runSource` — reads and runs a source in a scope
* `runFile` — the same for the contents of a file

## Design Notes

A file is UTF-8 text, in which carriage returns end lines as newlines do.  Its locations carry the
name under which it was asked for.

How deep a host lets evaluations nest is not a matter of the language, so whatever runs a program
takes the limit as an argument.
-/

namespace MonkeyLang

/-- Why a source is not run. -/
inductive Rejection where
  | syntaxErrors (errors : List SyntaxError)
  | unreadable (failure : ParseFailure)

/-- The text of syntax errors: their messages, each on a line. -/
def joinMessages (errors : List SyntaxError) : String :=
  "\n".intercalate (errors.map SyntaxError.message)

/-- How deeply evaluations may nest if nobody asks for another limit: enough for hundreds of nested
calls of large functions, and little enough for any stack. -/
def depthLimit : Nat := 5000

/-- What an outcome amounts to as a value.  Reaching the depth limit is an error without a place. -/
def Outcome.result : Outcome (Option Value) → Option Value
  | .value v => v
  | .interrupt i => some i.toValue
  | .tooDeep => some (.error { fault := .tooDeep })

/-- The program of a source that has no syntax errors. -/
def readProgram (source : String) (start : Option Location) : Except Rejection (Program Token) :=
  match parse source start with
  | .error failure => .error (.unreadable failure)
  | .ok p => if p.errors.isEmpty then .ok p.statements else .error (.syntaxErrors p.errors)

/-- Reads a source and runs it in a scope, within a depth limit.  The result is the value of the
source, if it has one. -/
def runSource (source : String) (start : Option Location) (scope : ScopeId) (m : Machine)
    (limit : Nat := depthLimit) : Except Rejection (Option Value) × Machine :=
  match readProgram source start with
  | .error rejection => (.error rejection, m)
  | .ok program =>
    let (outcome, m) := runProgram limit scope program m
    (.ok outcome.result, m)

/-- A source whose program can be read does what the program does. -/
theorem runSource_of_readProgram {source : String} {start : Option Location}
    {program : Program Token} (h : readProgram source start = .ok program) (scope : ScopeId)
    (m : Machine) (limit : Nat) :
    runSource source start scope m limit =
      (.ok (runProgram limit scope program m).1.result, (runProgram limit scope program m).2) := by
  rw [runSource, h]

/-- Why a file is not run. -/
inductive FileFailure where
  /-- Its path leads to no file. -/
  | unreachable (failure : PathFailure)
  /-- The file is not UTF-8 text. -/
  | notText
  | rejected (r : Rejection)

/-- The text of a file, with newlines as the only line ends. -/
def decodeFile (bytes : ByteArray) : Option String :=
  (String.fromUTF8? bytes).map fun text => String.ofList (Text.unifyNewlines text.toList)

/-- Runs the file with the given name and contents, if it can be reached, in a scope. -/
def runFile (name : String) (contents : Except PathFailure ByteArray) (scope : ScopeId)
    (m : Machine) (limit : Nat := depthLimit) : Except FileFailure (Option Value) × Machine :=
  match contents with
  | .error failure => (.error (.unreachable failure), m)
  | .ok bytes =>
    match decodeFile bytes with
    | none => (.error .notText, m)
    | some source =>
      let (result, m) := runSource source (some ⟨some name, 1⟩) scope m limit
      (result.mapError .rejected, m)

end MonkeyLang
