import MonkeyLang.Value

/-!
# Applying operators

What operators and the index do with values.

## Main Definitions

* `UnaryOp.apply`, `BinaryOp.apply` — an operator of the language on values
* `applyUnary`, `applyBinary` — the same for an operator given by its spelling, which may be unknown
* `Value.at` — the element of an array, or the item of a hash

## Design Notes

Integers are 64-bit words: sums, differences, products and negations wrap around, and quotients are
cut off toward zero.  The rules on exact integers that this comes to are in `Proofs.Words`.

Words, strings and nothing else are compared or joined by contents; the equality of other values is
their identity.
-/

namespace MonkeyLang

/-- What an unknown operator leads to: a mismatch when the operands have different types, and else
an operator that does not apply. -/
def unknownOperator (operator : String) (left right : Kind) : Fault :=
  if left = right then .unknownBinary left operator else .typeMismatch left operator right

/-- Applies a unary operator. -/
def UnaryOp.apply : UnaryOp → Value → Except Fault Value
  | .not, v => .ok (.boolean (!v.isTruthy))
  | .negate, .integer n => .ok (.integer (-n))
  | .negate, v => .error (.unknownUnary "-" v.kind)

/-- Applies a unary operator that is given by its spelling. -/
def applyUnary (operator : String) (operand : Value) : Except Fault Value :=
  match UnaryOp.ofText? operator with
  | some op => op.apply operand
  | none => .error (.unknownUnary operator operand.kind)

namespace BinaryOp

/-- Applies a binary operator to integers. -/
def applyIntegers (op : BinaryOp) (a b : Int64) : Except Fault Value :=
  match op with
  | add => .ok (.integer (a + b))
  | subtract => .ok (.integer (a - b))
  | multiply => .ok (.integer (a * b))
  | divide => if b = 0 then .error .divisionByZero else .ok (.integer (a / b))
  | less => .ok (.boolean (decide (a < b)))
  | greater => .ok (.boolean (decide (b < a)))
  | equal => .ok (.boolean (a == b))
  | notEqual => .ok (.boolean (a != b))

/-- Applies a binary operator to strings, which can only be joined. -/
def applyStrings (op : BinaryOp) (a b : String) : Except Fault Value :=
  match op with
  | add => .ok (.string (a ++ b))
  | op => .error (.unknownBinary .string op.text)

/-- Applies a binary operator to operands that are neither two integers nor two strings.  The last
argument tells whether the operands are one object. -/
def applyObjects (op : BinaryOp) (left right : Kind) (same : Bool) : Except Fault Value :=
  if left = right then
    match op with
    | equal => .ok (.boolean same)
    | notEqual => .ok (.boolean (!same))
    | op => .error (.unknownBinary left op.text)
  else .error (.typeMismatch left op.text right)

/-- Applies a binary operator.  The last argument tells whether the operands are one object. -/
def apply (op : BinaryOp) (left right : Value) (same : Bool := left.isSame right) :
    Except Fault Value :=
  match left, right with
  | .integer a, .integer b => op.applyIntegers a b
  | .string a, .string b => op.applyStrings a b
  | left, right => op.applyObjects left.kind right.kind same

end BinaryOp

/-- Applies a binary operator that is given by its spelling. -/
def applyBinary (operator : String) (left right : Value) (same : Bool := left.isSame right) :
    Except Fault Value :=
  match BinaryOp.ofText? operator with
  | some op => op.apply left right same
  | none => .error (unknownOperator operator left.kind right.kind)

/-- The element of an array at a place, which is null outside of the array. -/
def elementAt (elements : List Value) (place : Int) : Value :=
  if 0 ≤ place then (elements[place.toNat]?).getD .null else .null

/-- What an index into a value yields: an element of an array, or the item that a hash stores under
a key.  Both are null when there is none. -/
def Value.at (store subscript : Value) : Except Fault Value :=
  match store, subscript with
  | .array _ elements, .integer n => .ok (elementAt elements n.toInt)
  | .hash _ entries, key =>
    match key.hashKey? with
    | none => .error (.unusableKey key.kind)
    | some slot => .ok (((OrderedMap.find? slot entries).map Prod.snd).getD .null)
  | store, _ => .error (.notIndexable store.kind)

end MonkeyLang
