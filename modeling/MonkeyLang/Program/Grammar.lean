import MonkeyLang.Program
import MonkeyLang.Program.Parser

/-!
# The grammar

The parsers of expressions, statements and blocks.

## Main Definitions

* `Grammar.operand` — an expression up to the first binary operator, call or index behind it
* `Grammar.climb` — the operators, calls and indexes that follow an operand
* `expression` — an expression whose operators bind more strongly than a given strength
* `Grammar.statement`, `Grammar.block` — statements and blocks

## Design Notes

Each parser below takes the parser of the expressions inside it as an argument, and `expression`
ties the knot: its first argument bounds how deeply expressions nest.  A nested expression stands
behind a token of the enclosing one, so the number of tokens bounds the depth.

Operators associate to the left: the right operand of an operator takes in only operators that bind
more strongly.  A statement may end in a semicolon.
-/

namespace MonkeyLang

namespace Grammar

open MonkeyLang.Parser (symbol name ahead atEnd accept fail bounded)

variable {α : Type}

/-- The parser of the expressions inside another one, for each strength that their operators have
to exceed. -/
abbrev Inner := Precedence → Parser (Expr Token)

/-! ### Literals -/

/-- The largest integer literal, one less than the 63rd power of two. -/
def maxInteger : Nat := 9223372036854775807

/-- The largest number of digits, leading zeros among them, that a literal may have to be converted
at all. -/
def maxDigits : Nat := 4300

/-- The value of a run of decimal digits. -/
def decimal (digits : List Char) : Nat :=
  digits.foldl (fun n c => 10 * n + (c.toNat - '0'.toNat)) 0

/-- Reads an integer literal, whose token `t` stands in front of `rest`. -/
def integer (t : Token) (digits : String) (rest : List Token) : Reading (Expr Token) :=
  if digits.length > maxDigits then .overlong
  else
    let value := decimal digits.toList
    if value > maxInteger then .failed .integerTooLarge (t :: rest)
    else .done (.integer t value) rest

/-! ### Sequences -/

/-- Reads items with commas between them, at least one and at most as many as the budget. -/
def commaSeparated (item : Parser α) : Nat → Parser (List α)
  | 0 => fun _ => .exhausted
  | budget + 1 => do
    let first ← item
    if ← accept (.symbol .comma) then
      return first :: (← commaSeparated item budget)
    else
      return [first]

/-- Reads items with commas between them up to a closing symbol. -/
def listUntil (close : Symbol) (item : Parser α) : Parser (List α) := do
  if ← accept (.symbol close) then
    return []
  else
    let items ← bounded (commaSeparated item)
    let _ ← symbol close
    return items

/-- Reads the name of a parameter that differs from the earlier ones. -/
def parameter (earlier : List String) : Parser (Name Token) := fun ts =>
  match name ts with
  | .done (t, text) rest =>
    if text ∈ earlier then .failed .duplicateParameter ts else .done ⟨t, text⟩ rest
  | .failed cause rest => .failed cause rest
  | .overlong => .overlong
  | .exhausted => .exhausted

/-- Reads different names with commas between them, at least one. -/
def parametersAfter (earlier : List String) : Nat → Parser (List (Name Token))
  | 0 => fun _ => .exhausted
  | budget + 1 => do
    let first ← parameter earlier
    if ← accept (.symbol .comma) then
      return first :: (← parametersAfter (first.text :: earlier) budget)
    else
      return [first]

/-- Reads the parameters of a function, with their parentheses. -/
def parameters : Parser (List (Name Token)) := do
  let _ ← symbol .leftParen
  if ← accept (.symbol .rightParen) then
    return []
  else
    let names ← bounded (parametersAfter [])
    let _ ← symbol .rightParen
    return names

/-- Reads the pairs of a hash up to its closing brace.  A comma may stand behind the last pair. -/
def pairs (inner : Inner) : Nat → Parser (List (Expr Token × Expr Token))
  | 0 => fun _ => .exhausted
  | budget + 1 => do
    if ← accept (.symbol .rightBrace) then
      return []
    else
      let key ← inner .lowest
      let _ ← symbol .colon
      let value ← inner .lowest
      if ← ahead (.symbol .rightBrace) then
        return (key, value) :: (← pairs inner budget)
      else
        let _ ← symbol .comma
        return (key, value) :: (← pairs inner budget)

/-! ### Statements -/

/-- Reads a semicolon if there is one. -/
def optionalSemicolon : Parser Unit := do
  let _ ← accept (.symbol .semicolon)
  return ()

/-- Reads a binding behind its keyword `t`. -/
def letStatement (inner : Inner) (t : Token) : Parser (Statement Token) := do
  let (mark, text) ← name
  let _ ← symbol .assign
  let value ← inner .lowest
  optionalSemicolon
  return .let_ t ⟨mark, text⟩ value

/-- Reads a `return` behind its keyword `t`.  It is bare before a semicolon, a closing brace and the
end of the text. -/
def returnStatement (inner : Inner) (t : Token) : Parser (Statement Token) := do
  if ← accept (.symbol .semicolon) then
    return .return_ t none
  else if (← ahead (.symbol .rightBrace)) || (← atEnd) then
    return .return_ t none
  else
    let value ← inner .lowest
    optionalSemicolon
    return .return_ t (some value)

/-- Reads an expression that stands as a statement and begins with the token `t`. -/
def expressionStatement (inner : Inner) (t : Token) : Parser (Statement Token) := do
  let value ← inner .lowest
  optionalSemicolon
  return .expression t value

/-- Reads a statement. -/
def statement (inner : Inner) : Parser (Statement Token)
  | [] => .failed .noExpression []
  | t :: rest => match t.lexeme with
    | .keyword .let_ => letStatement inner t rest
    | .keyword .return_ => returnStatement inner t rest
    | _ => expressionStatement inner t (t :: rest)

/-- Reads the statements of a block and its closing brace. -/
def statementsUntilBrace (inner : Inner) : Nat → Parser (List (Statement Token))
  | 0 => fun _ => .exhausted
  | budget + 1 => do
    if ← accept (.symbol .rightBrace) then
      return []
    else if ← atEnd then
      fail (.expected (.symbol .rightBrace))
    else
      let first ← statement inner
      return first :: (← statementsUntilBrace inner budget)

/-- Reads a block. -/
def block (inner : Inner) : Parser (Block Token) := do
  let t ← symbol .leftBrace
  let statements ← bounded (statementsUntilBrace inner)
  return .mk t statements

/-! ### Expressions -/

/-- Reads the operand of a unary operator behind its token `t`. -/
def unary (inner : Inner) (t : Token) (op : UnaryOp) : Parser (Expr Token) := do
  let operand ← inner .unary
  return .unary t op operand

/-- Reads an expression in parentheses behind the opening one. -/
def group (inner : Inner) : Parser (Expr Token) := do
  let e ← inner .lowest
  let _ ← symbol .rightParen
  return e

/-- Reads a conditional behind its keyword `t`. -/
def conditional (inner : Inner) (t : Token) : Parser (Expr Token) := do
  let _ ← symbol .leftParen
  let condition ← inner .lowest
  let _ ← symbol .rightParen
  let consequence ← block inner
  if ← accept (.keyword .else_) then
    let alternative ← block inner
    return .conditional t condition consequence (some alternative)
  else
    return .conditional t condition consequence none

/-- Reads a function behind its keyword `t`. -/
def function (inner : Inner) (t : Token) : Parser (Expr Token) := do
  let names ← parameters
  let body ← block inner
  return .function t names body

/-- Reads the elements of an array behind its opening bracket `t`. -/
def array (inner : Inner) (t : Token) : Parser (Expr Token) := do
  let elements ← listUntil .rightBracket (inner .lowest)
  return .array t elements

/-- Reads the pairs of a hash behind its opening brace `t`. -/
def hash (inner : Inner) (t : Token) : Parser (Expr Token) := do
  let entries ← bounded (pairs inner)
  return .hash t entries

/-- Reads the expression that begins with the token in front, up to the first operator, call or
index behind it. -/
def operand (inner : Inner) : Parser (Expr Token)
  | [] => .failed .noExpression []
  | t :: rest => match t.lexeme with
    | .identifier text => .done (.identifier t text) rest
    | .integer digits => integer t digits rest
    | .string text => .done (.string t text) rest
    | .keyword .true_ => .done (.boolean t true) rest
    | .keyword .false_ => .done (.boolean t false) rest
    | .symbol .bang => unary inner t .not rest
    | .symbol .minus => unary inner t .negate rest
    | .symbol .leftParen => group inner rest
    | .keyword .if_ => conditional inner t rest
    | .keyword .fn_ => function inner t rest
    | .symbol .leftBracket => array inner t rest
    | .symbol .leftBrace => hash inner t rest
    | _ => .failed .noExpression (t :: rest)

/-- Reads the arguments of a call of `callee` behind the opening parenthesis `t`. -/
def call (inner : Inner) (t : Token) (callee : Expr Token) : Parser (Expr Token) := do
  let arguments ← listUntil .rightParen (inner .lowest)
  return .call t callee arguments

/-- Reads the subscript of an index into `store` behind the opening bracket `t`. -/
def index (inner : Inner) (t : Token) (store : Expr Token) : Parser (Expr Token) := do
  let subscript ← inner .lowest
  let _ ← symbol .rightBracket
  return .index t store subscript

/-- Reads the right operand of a binary operator behind its token `t`. -/
def binary (inner : Inner) (t : Token) (left : Expr Token) (op : BinaryOp) :
    Parser (Expr Token) := do
  let right ← inner op.precedence
  return .binary t left op right

/-- Continues the expression `left` with what the symbol `s` of the token `t` begins. -/
def continued (inner : Inner) (left : Expr Token) (t : Token) (s : Symbol) : Parser (Expr Token) :=
  match s with
  | .leftParen => call inner t left
  | .leftBracket => index inner t left
  | s => match BinaryOp.ofSymbol? s with
    | some op => binary inner t left op
    | none => fail .noExpression

/-- Continues an expression as long as the token behind it binds more strongly than `limit`. -/
def climb (inner : Inner) (limit : Precedence) : Nat → Expr Token → Parser (Expr Token)
  | 0, _ => fun _ => .exhausted
  | budget + 1, left => fun ts =>
    match ts with
    | [] => .done left []
    | t :: rest => match t.lexeme with
      | .symbol s =>
        if limit < s.precedence then
          (continued inner left t s >>= climb inner limit budget) rest
        else .done left (t :: rest)
      | _ => .done left (t :: rest)

end Grammar

/-- Reads an expression in which expressions nest at most `depth` deep, and whose outermost
operators bind more strongly than `limit`. -/
def expression : Nat → Grammar.Inner
  | 0, _ => fun _ => .exhausted
  | depth + 1, limit => do
    let first ← Grammar.operand (expression depth)
    Parser.bounded fun budget => Grammar.climb (expression depth) limit budget first

end MonkeyLang
