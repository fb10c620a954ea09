import MonkeyLang.Text.Printable
import MonkeyLang.Text.Quoted

/-!
# Escaped text

Text between quotation marks in which every character can be seen.

## Main Definitions

* `escape` — how a character is written between quotation marks
* `quoteEscaped` — a text between quotation marks

## Design Notes

A backslash introduces the characters that cannot stand for themselves: the mark, the backslash, and
what is not printable.  Three blanks have a letter each; other characters are written by their code,
in as few digits as one of three forms allows.
-/

namespace MonkeyLang.Text

/-- A character written by its code, with two, four or eight digits. -/
def escapeCode (c : Char) : List Char :=
  if c.toNat < 0x100 then '\\' :: 'x' :: paddedHex 2 c
  else if c.toNat < 0x10000 then '\\' :: 'u' :: paddedHex 4 c
  else '\\' :: 'U' :: paddedHex 8 c

/-- How a character is written between two of the given marks. -/
def escape (mark c : Char) : List Char :=
  if c = mark ∨ c = '\\' then ['\\', c]
  else if c = '\n' then ['\\', 'n']
  else if c = '\r' then ['\\', 'r']
  else if c = '\t' then ['\\', 't']
  else if isPrintable c then [c]
  else escapeCode c

/-- A text between single quotes, or between double quotes when it holds only single ones. -/
def quoteEscaped (text : List Char) : String :=
  let mark := if '\'' ∈ text ∧ '"' ∉ text then '"' else '\''
  String.ofList (mark :: (text.flatMap (escape mark) ++ [mark]))

end MonkeyLang.Text
