import MonkeyLang.Builtin.Apply
import MonkeyLang.Operator.Apply

/-!
# Evaluation

What programs do.

## Main Definitions

* `Evaluation.step` — an expression, given the evaluation of the expressions inside it
* `evaluate` — an expression, with a bound on how deeply evaluations nest
* `Evaluation.statement`, `Evaluation.statements` — statements in a scope
* `Evaluation.invoke` — a call of a function with arguments
* `runProgram` — a whole program

## Design Notes

Each evaluation below takes the evaluation of inner expressions as an argument, and `evaluate` ties
the knot.  A call evaluates the body of the function one level deeper than itself, so the bound cuts
off unbounded recursion as well as deep nesting.

A statement may yield no value: a `let` yields none, and neither does an empty block.  Where a
value is needed, none counts as null.

An element, an item or the result of a call can be an interrupt that a host program had stored.
Each of them is settled, so no expression yields an interrupt as a value.
-/

namespace MonkeyLang

namespace Evaluation

/-- The evaluation of the expressions inside another one, in a scope. -/
abbrev Inner := ScopeId → Expr Token → Eval Value

variable (inner : Inner)

/-! ### Statements -/

/-- Evaluates a statement in a scope. -/
def statement (scope : ScopeId) : Statement Token → Eval (Option Value)
  | .let_ _ name e => do
    let v ← inner scope e
    Eval.bindName scope name.text v
    return none
  | .return_ _ none => Eval.interrupt (.returned .null)
  | .return_ _ (some e) => do
    let v ← inner scope e
    Eval.interrupt (.returned v)
  | .expression _ e => do
    let v ← inner scope e
    return some v

/-- Evaluates statements in order.  The result is that of the last one, or the given one if there
are none. -/
def statements (scope : ScopeId) : Option Value → List (Statement Token) → Eval (Option Value)
  | result, [] => pure result
  | _, s :: rest => do
    let result ← statement inner scope s
    statements scope result rest

/-- Evaluates a block where a value is needed. -/
def block (scope : ScopeId) (b : Block Token) : Eval Value := do
  let result ← statements inner scope none b.statements
  return result.getD .null

/-! ### Calls -/

/-- Calls a function value with arguments.  The body is evaluated in a new scope, which lies inside
the one where the function was made. -/
def invoke (location : Option Location) (callee : Value) (arguments : List Value) : Eval Value :=
  match callee with
  | .builtin b => b.apply location arguments
  | .function _ parameters body scope =>
    if arguments.length = parameters.length then do
      let frame ← Eval.newScope (some scope) ((parameters.map fun p => p.text).zip arguments)
      (block inner frame body).takeReturned id
    else
      Eval.fault location (.wrongArgumentCount arguments.length parameters.length)
  | v => Eval.fault location (.notAFunction v.kind)

/-! ### Expressions -/

/-- Evaluates expressions from left to right. -/
def operands (scope : ScopeId) : List (Expr Token) → Eval (List Value)
  | [] => pure []
  | e :: es => do
    let v ← inner scope e
    let vs ← operands scope es
    return v :: vs

/-- Evaluates the pairs of a hash from left to right, each key before its item, and stores them. -/
def entries (scope : ScopeId) : Entries → List (Expr Token × Expr Token) → Eval Entries
  | stored, [] => pure stored
  | stored, (k, v) :: rest => do
    let key ← inner scope k
    match key.hashKey? with
    | none => Eval.fault k.mark.location (.unusableKey key.kind)
    | some slot =>
      let item ← inner scope v
      entries scope (stored.insert slot (key, item)) rest

/-- Evaluates a name: the innermost binding, or else a built-in function. -/
def identifier (scope : ScopeId) (location : Option Location) (name : String) : Eval Value := do
  match ← Eval.lookup scope name with
  | some v => Eval.settle v
  | none =>
    match Builtin.ofName? name with
    | some b => return .builtin b
    | none => Eval.fault location (.unbound name)

/-- Evaluates an expression in a scope. -/
def step (scope : ScopeId) : Expr Token → Eval Value
  | .identifier t name => identifier scope t.location name
  | .integer _ n => pure (.integer (Int64.ofNat n))
  | .boolean _ b => pure (.boolean b)
  | .string _ s => pure (.string s)
  | .unary t op e => do
    let v ← inner scope e
    Eval.orFault t.location (op.apply v)
  | .binary t left op right => do
    let a ← inner scope left
    let b ← inner scope right
    Eval.orFault t.location (op.apply a b)
  | .conditional _ condition consequence alternative => do
    let v ← inner scope condition
    if v.isTruthy then block inner scope consequence
    else match alternative with
      | some b => block inner scope b
      | none => return .null
  | .function _ parameters body => Eval.newFunction parameters body scope
  | .call t callee arguments => do
    let f ← inner scope callee
    let vs ← operands inner scope arguments
    let result ← invoke inner t.location f vs
    Eval.settle result
  | .array _ elements => do
    let vs ← operands inner scope elements
    Eval.newArray vs
  | .hash _ pairs => do
    let stored ← entries inner scope [] pairs
    Eval.newHash stored
  | .index t store subscript => do
    let s ← inner scope store
    let i ← inner scope subscript
    let v ← Eval.orFault t.location (s.at i)
    Eval.settle v

end Evaluation

/-- Evaluates an expression, in which evaluations may nest up to `depth`. -/
def evaluate : Nat → Evaluation.Inner
  | 0, _, _ => Eval.tooDeep
  | depth + 1, scope, e => Evaluation.step (evaluate depth) scope e

/-- Evaluates a program in a scope.  A `return` ends it with the returned value. -/
def runProgram (depth : Nat) (scope : ScopeId) (program : Program Token) : Eval (Option Value) :=
  (Evaluation.statements (evaluate depth) scope none program).takeReturned some

end MonkeyLang
