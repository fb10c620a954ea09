import MonkeyLang.Token

/-!
# Operators

The operators of the language, their symbols, and how strongly they bind.

## Main Definitions

* `UnaryOp`, `BinaryOp` — the operators
* `UnaryOp.symbol`, `BinaryOp.symbol` — the symbol that an operator is written with
* `BinaryOp.ofSymbol?` — the operator that a symbol stands for between two operands
* `Precedence` — the binding strengths, weakest first

## Design Notes

A parenthesis and a bracket behind an expression bind like operators too: they begin the arguments
of a call and the subscript of an index.  Hence strength is a property of symbols,
`Symbol.precedence`.
-/

namespace MonkeyLang

/-- Operators before one operand. -/
inductive UnaryOp where
  | not
  | negate
deriving DecidableEq

/-- Operators between two operands. -/
inductive BinaryOp where
  | add
  | subtract
  | multiply
  | divide
  | equal
  | notEqual
  | less
  | greater
deriving DecidableEq

/-- Binding strengths. -/
inductive Precedence where
  | lowest
  | equality
  | comparison
  | sum
  | product
  | unary
  | call
  | index
deriving DecidableEq

namespace Precedence

/-- The place of a strength in the order, weakest first. -/
def rank : Precedence → Nat
  | lowest => 0
  | equality => 1
  | comparison => 2
  | sum => 3
  | product => 4
  | unary => 5
  | call => 6
  | index => 7

instance : LT Precedence := ⟨fun p q => p.rank < q.rank⟩
instance : LE Precedence := ⟨fun p q => p.rank ≤ q.rank⟩

instance (p q : Precedence) : Decidable (p < q) := inferInstanceAs (Decidable (p.rank < q.rank))
instance (p q : Precedence) : Decidable (p ≤ q) := inferInstanceAs (Decidable (p.rank ≤ q.rank))

theorem lt_def {p q : Precedence} : p < q ↔ p.rank < q.rank := Iff.rfl
theorem le_def {p q : Precedence} : p ≤ q ↔ p.rank ≤ q.rank := Iff.rfl

end Precedence

namespace UnaryOp

/-- The symbol of a unary operator. -/
def symbol : UnaryOp → Symbol
  | not => .bang
  | negate => .minus

/-- The spelling of a unary operator. -/
def text (op : UnaryOp) : String := op.symbol.text

/-- The unary operator with a given spelling. -/
def ofText? : String → Option UnaryOp
  | "!" => some not
  | "-" => some negate
  | _ => none

/-- The spelling of an operator names it. -/
@[simp] theorem ofText?_text (op : UnaryOp) : ofText? op.text = some op := by
  cases op <;> decide

end UnaryOp

namespace BinaryOp

/-- The symbol of a binary operator. -/
def symbol : BinaryOp → Symbol
  | add => .plus
  | subtract => .minus
  | multiply => .star
  | divide => .slash
  | equal => .equal
  | notEqual => .notEqual
  | less => .less
  | greater => .greater

/-- The spelling of a binary operator. -/
def text (op : BinaryOp) : String := op.symbol.text

/-- The operator that a symbol stands for between two operands. -/
def ofSymbol? : Symbol → Option BinaryOp
  | .plus => some add
  | .minus => some subtract
  | .star => some multiply
  | .slash => some divide
  | .equal => some equal
  | .notEqual => some notEqual
  | .less => some less
  | .greater => some greater
  | _ => none

/-- Every binary operator. -/
def all : List BinaryOp :=
  [add, subtract, multiply, divide, equal, notEqual, less, greater]

/-- The binary operator with a given spelling. -/
def ofText? (text : String) : Option BinaryOp :=
  all.find? fun op => op.text == text

/-- The binding strength of a binary operator. -/
def precedence : BinaryOp → Precedence
  | equal | notEqual => .equality
  | less | greater => .comparison
  | add | subtract => .sum
  | multiply | divide => .product

@[simp] theorem ofSymbol?_symbol (op : BinaryOp) : ofSymbol? op.symbol = some op := by
  cases op <;> rfl

/-- A symbol that names an operator is its own. -/
theorem symbol_of_ofSymbol? {s : Symbol} {op : BinaryOp} (h : ofSymbol? s = some op) :
    op.symbol = s := by
  cases s <;> simp [ofSymbol?] at h <;> subst h <;> rfl

@[simp] theorem ofText?_text (op : BinaryOp) : ofText? op.text = some op := by
  cases op <;> decide

end BinaryOp

/-- How strongly a symbol binds the expression before it.  A symbol that continues no expression
has the lowest strength. -/
def Symbol.precedence : Symbol → Precedence
  | .leftParen => .call
  | .leftBracket => .index
  | s => match BinaryOp.ofSymbol? s with
    | some op => op.precedence
    | none => .lowest

/-- How strongly a lexeme binds the expression before it. -/
def Lexeme.precedence : Lexeme → Precedence
  | .symbol s => s.precedence
  | _ => .lowest

/-- An operator binds as strongly as its symbol. -/
@[simp] theorem BinaryOp.precedence_symbol (op : BinaryOp) :
    op.symbol.precedence = op.precedence := by
  cases op <;> rfl

end MonkeyLang
