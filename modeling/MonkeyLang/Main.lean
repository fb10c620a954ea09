import MonkeyLang.CommandLine

/-!
# The program

Reads the arguments, the script and the typed lines, and prints the reports.  What to print is
decided elsewhere; a conversation is printed line by line as it goes on.
-/

namespace MonkeyLang

/-- The contents of a file, if it can be read. -/
def readContents (file : String) : IO (Except PathFailure ByteArray) := do
  try
    return .ok (← IO.FS.readBinFile file)
  catch
    | .inappropriateType .. => return .error .folder
    | _ => return .error .missing

/-- Prints what the console has said since the last time. -/
def printOutput (c : Console) : IO Console := do
  let stdout ← IO.getStdout
  stdout.putStr c.machine.output
  stdout.flush
  return { c with machine := { c.machine with output := "" } }

/-- Talks to the user until there are no more lines, or until a line ends the conversation. -/
partial def talk (c : Console) : IO Ending := do
  let c ← printOutput (c.say c.prompt)
  let line ← (← IO.getStdin).getLine
  if line.isEmpty then
    IO.eprint "\n"
    return .exit 0
  else
    let (turn, c) := c.push (String.ofList (Text.dropNewline line.toList))
    let c ← printOutput c
    match turn with
    | .aborted failure => return .broken (.rejected (.unreadable failure))
    | _ => talk c

/-- Prints a report, and tells how the run ended. -/
def printReport (report : Report) : IO Ending := do
  IO.print report.output
  IO.eprint report.complaints
  return report.ending

/-- Carries out what the arguments ask for. -/
def run (invocation : Invocation) : IO Ending := do
  match invocation with
  | .conversation => talk Console.start
  | .script file =>
    let contents ← readContents file
    printReport (perform (fun _ => contents) "" invocation)
  | _ => printReport (perform (fun _ => .error .missing) "" invocation)

end MonkeyLang

/-- Runs the program with the given arguments. -/
def main (arguments : List String) : IO UInt32 := do
  let ending ← MonkeyLang.run (.ofArguments arguments)
  match ending with
  | .broken failure => IO.eprint ("error: " ++ failure.describe ++ "\n")
  | _ => pure ()
  return ending.status
