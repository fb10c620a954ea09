import MonkeyLang.Location
import MonkeyLang.Text.Quoted

/-!
# Tokens

The words of the language: keywords, symbols, names and literals, each with the line on which it
begins.

## Main Definitions

* `Keyword` — the seven reserved words
* `Symbol` — operators and delimiters
* `Lexeme` — what a token says
* `Token` — a lexeme with its location
* `Lexeme.kind`, `Lexeme.literal` — the class of a lexeme, and the text that it carries
* `Lexeme.describe` — how a message names a lexeme
* `Lexeme.spelling` — the source text of a lexeme

## Design Notes

A lexeme carries its payload, so that a token with the wrong sort of text cannot be built.  The end
of the text is a lexeme too: messages name it, and a token for it has a location like any other.
-/

namespace MonkeyLang

open Text (quote visible)

/-- The reserved words. -/
inductive Keyword where
  | fn_
  | let_
  | true_
  | false_
  | if_
  | else_
  | return_
deriving DecidableEq

namespace Keyword

/-- The spelling of a keyword. -/
def text : Keyword → String
  | fn_ => "fn"
  | let_ => "let"
  | true_ => "true"
  | false_ => "false"
  | if_ => "if"
  | else_ => "else"
  | return_ => "return"

/-- Every keyword. -/
def all : List Keyword := [fn_, let_, true_, false_, if_, else_, return_]

/-- The keyword with a given spelling. -/
def ofText? (word : String) : Option Keyword :=
  all.find? fun k => k.text == word

theorem mem_all (k : Keyword) : k ∈ all := by
  cases k <;> simp [all]

@[simp] theorem ofText?_text (k : Keyword) : ofText? k.text = some k := by
  cases k <;> decide

/-- A keyword is found by its own spelling only. -/
theorem text_of_ofText? {word : String} {k : Keyword} (h : ofText? word = some k) :
    k.text = word := by
  simpa using List.find?_some h

end Keyword

/-- Operators and delimiters. -/
inductive Symbol where
  | assign
  | plus
  | minus
  | bang
  | star
  | slash
  | equal
  | notEqual
  | less
  | greater
  | comma
  | colon
  | semicolon
  | leftParen
  | rightParen
  | leftBrace
  | rightBrace
  | leftBracket
  | rightBracket
deriving DecidableEq

namespace Symbol

/-- The spelling of a symbol. -/
def text : Symbol → String
  | assign => "="
  | plus => "+"
  | minus => "-"
  | bang => "!"
  | star => "*"
  | slash => "/"
  | equal => "=="
  | notEqual => "!="
  | less => "<"
  | greater => ">"
  | comma => ","
  | colon => ":"
  | semicolon => ";"
  | leftParen => "("
  | rightParen => ")"
  | leftBrace => "\x7b"
  | rightBrace => "\x7d"
  | leftBracket => "["
  | rightBracket => "]"

end Symbol

/-- What a token says, without its location. -/
inductive Lexeme where
  /-- The end of the text. -/
  | eof
  /-- Text that begins no token: one character, or an unfinished string with all that follows. -/
  | illegal (text : String)
  /-- A name that is no keyword. -/
  | identifier (name : String)
  /-- A run of decimal digits. -/
  | integer (digits : String)
  /-- The text between two double quotes. -/
  | string (text : String)
  /-- A reserved word. -/
  | keyword (k : Keyword)
  /-- An operator or delimiter. -/
  | symbol (s : Symbol)
deriving DecidableEq

namespace Lexeme

/-- The lexeme of a word: a keyword when it is reserved, else a name. -/
def ofWord (word : String) : Lexeme :=
  match Keyword.ofText? word with
  | some k => .keyword k
  | none => .identifier word

/-- The name of the class of a lexeme; a keyword and a symbol are classes of their own. -/
def kind : Lexeme → String
  | eof => "eof"
  | illegal _ => "illegal"
  | identifier _ => "identifier"
  | integer _ => "integer"
  | string _ => "string"
  | keyword k => k.text
  | symbol s => s.text

/-- The text that a lexeme carries.  For a string it lacks the quotes. -/
def literal : Lexeme → String
  | eof => ""
  | illegal text => text
  | identifier name => name
  | integer digits => digits
  | string text => text
  | keyword k => k.text
  | symbol s => s.text

/-- The text of a lexeme as it stands in a source. -/
def spelling : Lexeme → List Char
  | string text => '"' :: (text.toList ++ ['"'])
  | lexeme => lexeme.literal.toList

/-- How a message names a lexeme: its text, with the characters of illegal text made visible. -/
def describe : Lexeme → String
  | eof => "end-of-file"
  | illegal text => String.ofList (text.toList.flatMap visible)
  | lexeme => lexeme.literal

end Lexeme

/-- A lexeme and the place where it begins, when the text has a known start. -/
structure Token where
  lexeme : Lexeme
  location : Option Location := none
deriving DecidableEq

end MonkeyLang
