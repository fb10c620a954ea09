import MonkeyLang.Operator

/-!
# Syntax errors

A syntax error is a cause together with the token at which it was noticed.

## Main Definitions

* `Expected` — what can be missing
* `SyntaxError.Cause` — why reading stopped
* `SyntaxError` — a cause and the offending token
* `SyntaxError.message` — the text that is reported

## Design Notes

Each text depends on the cause and on the offending token alone, so a parser never handles text.
-/

namespace MonkeyLang

open Text (quote)

/-- What a parser can ask for by name. -/
inductive Expected where
  | identifier
  | symbol (s : Symbol)
deriving DecidableEq

/-- How a message names what was asked for. -/
def Expected.text : Expected → String
  | identifier => "identifier"
  | symbol s => s.text

/-- Why the reading of a statement stops. -/
inductive SyntaxError.Cause where
  /-- Something else should stand here. -/
  | expected (what : Expected)
  /-- An expression should begin here, and this token begins none. -/
  | noExpression
  /-- The value of this literal is not a 64-bit integer. -/
  | integerTooLarge
  /-- An earlier parameter of the same function has this name. -/
  | duplicateParameter
deriving DecidableEq

/-- A cause and the token at which it was noticed; that token may be the end of the text. -/
structure SyntaxError where
  cause : SyntaxError.Cause
  found : Token
deriving DecidableEq

namespace SyntaxError

/-- What went wrong, without the place. -/
def reason (e : SyntaxError) : String :=
  match e.cause with
  | .expected what => "expected " ++ quote what.text ++ ", found " ++ quote e.found.lexeme.describe
  | .noExpression =>
    "no prefix parse function for " ++ quote e.found.lexeme.describe ++ " found"
  | .integerTooLarge => "could not parse " ++ quote e.found.lexeme.literal ++ " as integer"
  | .duplicateParameter => "duplicate function parameter " ++ quote e.found.lexeme.literal

/-- The reported text: the place of the offending token in brackets, when it has one, and then
what went wrong. -/
def message (e : SyntaxError) : String :=
  match e.found.location with
  | none => e.reason
  | some l => "[" ++ l.describe ++ "] " ++ e.reason

end SyntaxError

end MonkeyLang
