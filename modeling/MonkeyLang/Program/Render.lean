import MonkeyLang.Program

/-!
# Programs as text

A tree is written in one line.  Unary, binary and index expressions always get parentheses, so the
text shows how the program was understood.

## Main Definitions

* `Expr.render`, `Statement.render`, `Block.render` — the text of a node
* `Program.render` — the text of a program

## Design Notes

A `let` and a `return` end with a semicolon, a statement that is an expression does not.  Such a
statement gets one when another statement follows it, without which the two could be read as one
expression.
-/

namespace MonkeyLang

variable {α : Type}

/-- What is written behind a statement when another one follows it. -/
def Statement.terminator : Statement α → String
  | .let_ _ _ _ | .return_ _ _ => ""
  | .expression _ _ => ";"

/-- The text of a list of names between parentheses. -/
def renderParameters (parameters : List (Name α)) : String :=
  "(" ++ ", ".intercalate (parameters.map fun p => p.text) ++ ")"

mutual

/-- The text of an expression. -/
def Expr.render : Expr α → String
  | .identifier _ name => name
  | .integer _ value => toString value
  | .boolean _ value => if value then "true" else "false"
  | .string _ value => "\"" ++ value ++ "\""
  | .unary _ op operand => "(" ++ op.text ++ operand.render ++ ")"
  | .binary _ left op right =>
    "(" ++ left.render ++ " " ++ op.text ++ " " ++ right.render ++ ")"
  | .conditional _ condition consequence none =>
    "if (" ++ condition.render ++ ") " ++ consequence.render
  | .conditional _ condition consequence (some alternative) =>
    "if (" ++ condition.render ++ ") " ++ consequence.render ++ " else " ++ alternative.render
  | .function _ parameters body => "fn" ++ renderParameters parameters ++ " " ++ body.render
  | .call _ callee arguments =>
    callee.render ++ "(" ++ ", ".intercalate (renderExprs arguments) ++ ")"
  | .array _ elements => "[" ++ ", ".intercalate (renderExprs elements) ++ "]"
  | .hash _ pairs => "\x7b" ++ ", ".intercalate (renderPairs pairs) ++ "\x7d"
  | .index _ store subscript => "(" ++ store.render ++ "[" ++ subscript.render ++ "])"
termination_by structural e => e

/-- The texts of a list of expressions. -/
def renderExprs : List (Expr α) → List String
  | [] => []
  | e :: es => e.render :: renderExprs es
termination_by structural es => es

/-- The texts of the pairs of a hash. -/
def renderPairs : List (Expr α × Expr α) → List String
  | [] => []
  | (k, v) :: pairs => (k.render ++ ": " ++ v.render) :: renderPairs pairs
termination_by structural pairs => pairs

/-- The text of a statement. -/
def Statement.render : Statement α → String
  | .let_ _ name value => "let " ++ name.text ++ " = " ++ value.render ++ ";"
  | .return_ _ none => "return;"
  | .return_ _ (some value) => "return " ++ value.render ++ ";"
  | .expression _ value => value.render
termination_by structural s => s

/-- The text of statements, one after the other. -/
def renderStatements : List (Statement α) → String
  | [] => ""
  | [s] => s.render
  | s :: rest => s.render ++ s.terminator ++ " " ++ renderStatements rest
termination_by structural ss => ss

/-- The text of a block. -/
def Block.render : Block α → String
  | .mk _ [] => "\x7b \x7d"
  | .mk _ (s :: rest) => "\x7b " ++ renderStatements (s :: rest) ++ " \x7d"
termination_by structural b => b

end

/-- The text of a program. -/
def Program.render (program : Program α) : String := renderStatements program

end MonkeyLang
