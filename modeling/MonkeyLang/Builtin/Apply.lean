import MonkeyLang.Machine

/-!
# Built-in functions: behaviour

## Main Definitions

* `Builtin.apply` — applies a built-in function to arguments

## Design Notes

Arguments are first counted and then inspected from left to right.  Arrays never change, so `rest`
and `push` make new ones.

An error that is handed out as an element of an array and has no place yet gets the place of the
call, and keeps it.
-/

namespace MonkeyLang

namespace Builtin

/-- The length of a string in UTF-8 bytes, or of an array in elements. -/
def length : Value → Except Fault Value
  | .string s => .ok (.integer (Int64.ofNat s.utf8ByteSize))
  | .array _ elements => .ok (.integer (Int64.ofNat elements.length))
  | v => .error (.noLength v.kind)

/-- The elements of an array that is an argument of the function `b`. -/
def elementsOf (b : Builtin) : Value → Except Fault (List Value)
  | .array _ elements => .ok elements
  | v => .error (.notAnArray b v.kind)

/-- Writes each value on a line. -/
def writeAll : List Value → Eval Unit
  | [] => pure ()
  | v :: vs => do
    Eval.writeLine v.render
    writeAll vs

/-- Applies a built-in function in a call at the given place. -/
def apply (b : Builtin) (location : Option Location) (arguments : List Value) : Eval Value :=
  match b, arguments with
  | puts, vs => do
    writeAll vs
    return .null
  | len, [v] => Eval.orFault location (length v)
  | first, [v] => do
    let elements ← Eval.orFault location (elementsOf first v)
    Eval.handOut location (elements.head?.getD .null)
  | last, [v] => do
    let elements ← Eval.orFault location (elementsOf last v)
    Eval.handOut location (elements.getLast?.getD .null)
  | rest, [v] => do
    match ← Eval.orFault location (elementsOf rest v) with
    | [] => return .null
    | _ :: others => Eval.newArray others
  | push, [v, added] => do
    let elements ← Eval.orFault location (elementsOf push v)
    Eval.newArray (elements ++ [added])
  | b, vs => Eval.fault location (.wrongArgumentCount vs.length (b.arity.getD vs.length))

end Builtin

end MonkeyLang
