import MonkeyLang.Program.Grammar
import MonkeyLang.Token.Lexer

/-!
# Reading programs

A source is read statement by statement.  A statement that cannot be read is reported, what follows
up to the next semicolon is dropped, and reading goes on behind it.

## Main Definitions

* `readStatement` — one statement from the front of a list of tokens
* `recover` — the tokens behind the next semicolon
* `Parsed` — the statements that could be read, and the errors
* `parseTokens`, `parse` — the program of a list of tokens, and of a source

## Design Notes

Recovery begins at the offending token, which is why an error at a semicolon drops that semicolon
and nothing else.  Where an expression cannot begin, where a literal is too large and where a
parameter is named twice, the offending token is the one that reading stands at.  Where a particular
token is missing, reading still stands at the token in front, the last one that it took.  That one
is a keyword, a name, the end of an expression, or a symbol that opens or separates something, but
never a semicolon: a semicolon only ends a statement, and behind it comes another statement, or the
closing brace of a block, which is missing only where the text ends.  So a scan for the semicolon
that begins at the token in front passes over it at once, and comes to the same place as one that
begins at the offending token; `Proofs.Resumption` has the proof.
-/

namespace MonkeyLang

/-- What came of a source: the statements that could be read, and the errors in order. -/
structure Parsed where
  statements : Program Token
  errors : List SyntaxError

/-- Why a source has no program at all. -/
inductive ParseFailure where
  /-- An integer literal has more digits than can be converted. -/
  | overlongInteger
  /-- A budget was used up. -/
  | exhausted
deriving DecidableEq

/-- Reads a statement, with a depth that its tokens cannot exceed. -/
def readStatement : Parser (Statement Token) := fun ts =>
  Grammar.statement (expression (ts.length + 1)) ts

/-- The tokens behind the next semicolon. -/
def recover (ts : List Token) : List Token :=
  (ts.dropWhile fun t => t.lexeme != .symbol .semicolon).tail

/-- Reads at most `budget` statements, and gathers the errors. -/
def parseWithin (eof : Token) : Nat → List Token → Except ParseFailure Parsed
  | _, [] => .ok ⟨[], []⟩
  | 0, _ :: _ => .error .exhausted
  | budget + 1, t :: ts =>
    match readStatement (t :: ts) with
    | .done s rest => (parseWithin eof budget rest).map fun p =>
      { p with statements := s :: p.statements }
    | .failed cause rest => (parseWithin eof budget (recover rest)).map fun p =>
      { p with errors := ⟨cause, rest.headD eof⟩ :: p.errors }
    | .overlong => .error .overlongInteger
    | .exhausted => .error .exhausted

/-- The program of a list of tokens.  A statement, like an error, takes up a token at least, so the
number of tokens is budget enough. -/
def parseTokens (source : Lexed) : Except ParseFailure Parsed :=
  parseWithin source.eof source.tokens.length source.tokens

/-- The program of a source whose first line has the given location. -/
def parse (source : String) (start : Option Location := none) : Except ParseFailure Parsed :=
  parseTokens (lex source start)

end MonkeyLang
