import MonkeyLang.Builtin
import MonkeyLang.Location

/-!
# Runtime errors

What can go wrong while a program is evaluated.

## Main Definitions

* `Kind` — the types of values, as messages name them
* `Fault` — the causes of runtime errors
* `Fault.message` — the text of a cause
* `ObjectId` — the number of an object
* `RuntimeError` — a cause and the place of the expression that failed
-/

namespace MonkeyLang

open Text (quote)

/-- The types of values. -/
inductive Kind where
  | null
  | boolean
  | integer
  | string
  | array
  | hash
  | function
  | builtin
  | error
  | returned
deriving DecidableEq

/-- The name of a type. -/
def Kind.name : Kind → String
  | null => "NULL"
  | boolean => "BOOLEAN"
  | integer => "INTEGER"
  | string => "STRING"
  | array => "ARRAY"
  | hash => "HASH"
  | function => "FUNCTION"
  | builtin => "BUILTIN"
  | error => "ERROR"
  | returned => "RETURN_VALUE"

/-- Why an evaluation fails. -/
inductive Fault where
  /-- Neither a binding nor a built-in function has this name. -/
  | unbound (name : String)
  /-- The operator, given by its spelling, does not apply to an operand of this type. -/
  | unknownUnary (operator : String) (operand : Kind)
  /-- The operands have different types. -/
  | typeMismatch (left : Kind) (operator : String) (right : Kind)
  /-- The operator does not apply to operands of this type. -/
  | unknownBinary (operand : Kind) (operator : String)
  | divisionByZero
  /-- The called value is no function. -/
  | notAFunction (kind : Kind)
  | wrongArgumentCount (got want : Nat)
  /-- The argument of a built-in function is no array. -/
  | notAnArray (function : Builtin) (got : Kind)
  /-- The argument of `len` has no length. -/
  | noLength (got : Kind)
  /-- A value of this type cannot be a key. -/
  | unusableKey (kind : Kind)
  /-- A value of this type cannot be indexed. -/
  | notIndexable (kind : Kind)
  /-- The nesting of evaluations exceeds the limit. -/
  | tooDeep
  /-- Any other failure, known by its text alone. -/
  | other (text : String)
deriving DecidableEq

/-- The text of a cause. -/
def Fault.message : Fault → String
  | unbound name => "identifier not found: " ++ name
  | unknownUnary operator operand => "unknown operator: " ++ operator ++ operand.name
  | typeMismatch left operator right =>
    "type mismatch: " ++ left.name ++ " " ++ operator ++ " " ++ right.name
  | unknownBinary operand operator =>
    "unknown operator: " ++ operand.name ++ " " ++ operator ++ " " ++ operand.name
  | divisionByZero => "division by zero"
  | notAFunction kind => "not a function: " ++ kind.name
  | wrongArgumentCount got want =>
    "wrong number of arguments. got=" ++ toString got ++ ", want=" ++ toString want
  | notAnArray function got =>
    "argument to " ++ quote function.name ++ " must be " ++ Kind.array.name ++ ", got " ++ got.name
  | noLength got =>
    "argument to " ++ quote Builtin.len.name ++ " not supported, got " ++ got.name
  | unusableKey kind => "unusable as hash key: " ++ kind.name
  | notIndexable kind => "index operator not supported: " ++ kind.name
  | tooDeep => "maximum recursion depth exceeded"
  | other text => text

/-- The number that tells an object from all others. -/
abbrev ObjectId := Nat

/-- A runtime error: a cause, and the place of the token whose expression failed.  An error that a
host program stores is an object with a number; one that arises in an evaluation has none. -/
structure RuntimeError where
  fault : Fault
  location : Option Location := none
  object : Option ObjectId := none
deriving DecidableEq

namespace RuntimeError

/-- The text of an error, without its place. -/
def message (e : RuntimeError) : String := e.fault.message

end RuntimeError

end MonkeyLang
