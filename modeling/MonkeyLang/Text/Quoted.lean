/-!
# Quoted text

Messages set off a piece of source text by quotation marks.

## Main Definitions

* `quote` — text between backquotes, or between double quotes when it holds a backquote itself
* `paddedHex` — the code of a character in at least so many digits
* `hexCode` — the code of a character that cannot be shown as itself
* `visible` — the text of a character in a message
-/

namespace MonkeyLang.Text

/-- A piece of text as a message shows it: between backquotes, or between double quotes when a
backquote occurs in it. -/
def quote (text : String) : String :=
  if '\x60' ∈ text.toList then "\"" ++ text ++ "\"" else "\x60" ++ text ++ "\x60"

/-- The code point of a character in lower-case hexadecimal, with zeros in front up to a width. -/
def paddedHex (width : Nat) (c : Char) : List Char :=
  let digits := Nat.toDigits 16 c.toNat
  List.replicate (width - digits.length) '0' ++ digits

/-- The code point of a character with its base in front, in at least two digits. -/
def hexCode (c : Char) : List Char := '0' :: 'x' :: paddedHex 2 c

/-- A character that is shown as itself: the visible ASCII characters, the blank not among them. -/
def isVisible (c : Char) : Bool :=
  '!' ≤ c && c ≤ '~'

/-- How a message shows a character: as itself when it is visible, else by its code. -/
def visible (c : Char) : List Char :=
  if isVisible c then [c] else hexCode c

end MonkeyLang.Text
