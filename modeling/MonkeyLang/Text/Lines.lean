/-!
# Lines of text

Ways to see lines in a text.

## Main Definitions

* `splitLines` — the lines of a text, at every character that breaks a line
* `unifyNewlines` — the same text with the newline as the only line end
* `typedLines` — the lines of what was typed, each ended by a newline
* `dropNewline` — a text without its last newline

## Design Notes

A line break at the end of a text ends the last line and begins no further one.  A carriage return
with a newline behind it is one break.
-/

namespace MonkeyLang.Text

/-- The characters that break a line: newline, carriage return, vertical tabulator, form feed, the
file, group and record separators, the next-line control, and the line and paragraph separators. -/
def isLineBreak (c : Char) : Bool :=
  c == '\n' || c == '\r' || c == '\x0b' || c == '\x0c' || c == '\x1c' || c == '\x1d' ||
    c == '\x1e' || c == '\x85' || c == '\u2028' || c == '\u2029'

/-- Puts a character in front of the first of some pieces of text. -/
def growFirst (c : Char) : List (List Char) → List (List Char)
  | [] => [[c]]
  | line :: lines => (c :: line) :: lines

/-- The lines of a text, without their breaks. -/
def splitLines : List Char → List (List Char)
  | [] => []
  | '\r' :: '\n' :: rest => [] :: splitLines rest
  | c :: rest => if isLineBreak c then [] :: splitLines rest else growFirst c (splitLines rest)

/-- The text with each carriage return, alone or before a newline, replaced by a newline. -/
def unifyNewlines : List Char → List Char
  | [] => []
  | '\r' :: '\n' :: rest => '\n' :: unifyNewlines rest
  | '\r' :: rest => '\n' :: unifyNewlines rest
  | c :: rest => c :: unifyNewlines rest

/-- The lines of what was typed, without their newlines.  The last line may lack its newline. -/
def typedLines : List Char → List (List Char)
  | [] => []
  | '\n' :: rest => [] :: typedLines rest
  | c :: rest => growFirst c (typedLines rest)

/-- A text without the newline at its end, if there is one. -/
def dropNewline (text : List Char) : List Char :=
  if text.getLast? = some '\n' then text.dropLast else text

end MonkeyLang.Text
