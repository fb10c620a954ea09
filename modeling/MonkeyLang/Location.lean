/-!
# Source locations

A location names a line of a file, or a line alone when the text has no file.

## Main Definitions

* `Location` — an optional file name and a line number
* `Location.describe` — how a location is written in a message
* `Location.after` — the location reached after reading some text

## Design Notes

Columns are not kept: every message of the language points at a line.  The line is an integer and
not a natural number, since a caller chooses the first line freely.
-/

namespace MonkeyLang

/-- A line of a source text, with the name of the file when there is one. -/
structure Location where
  file : Option String
  line : Int
deriving DecidableEq

namespace Location

/-- The text of a location: `file, line n`, or `line n` without a file. -/
def describe (l : Location) : String :=
  match l.file with
  | none => "line " ++ toString l.line
  | some file => file ++ ", line " ++ toString l.line

/-- The location after reading `text`: each newline in it begins another line. -/
def after (l : Location) (text : List Char) : Location :=
  { l with line := l.line + text.count '\n' }

@[simp] theorem after_nil (l : Location) : l.after [] = l := by
  simp [after]

/-- The location behind two texts is reached through the location between them. -/
theorem after_append (l : Location) (s t : List Char) :
    l.after (s ++ t) = (l.after s).after t := by
  simp [after, Int.add_assoc]

end Location

end MonkeyLang
