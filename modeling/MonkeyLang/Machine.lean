import MonkeyLang.Scope
import MonkeyLang.Value

/-!
# The machine

An evaluation reads and changes scopes, writes output and makes objects.

## Main Definitions

* `Interrupt` — an error or a returned value on its way out
* `Machine` — what evaluations act on
* `Machine.placeOf` — the place of an error by now
* `Outcome` — how an evaluation ends
* `Eval` — evaluations; a monad
* `Eval.settle` — goes on with a value, unless it is an interrupt

## Design Notes

Every ending keeps the machine: what was bound and written before an error, or before the depth
limit was reached, stays.

An interrupt skips everything up to the function call or program that takes it.  The monad's bind is
the only place where that is decided.

A host may store one error in several places without telling where it occurred.  The first call that
hands the error out decides, for all of them: the machine notes the place under the error's number.
-/

namespace MonkeyLang

/-- What cuts an evaluation short: an error, or a `return` with its value. -/
inductive Interrupt where
  | error (e : RuntimeError)
  | returned (v : Value)

/-- An interrupt as a value. -/
def Interrupt.toValue : Interrupt → Value
  | error e => .error e
  | returned v => .returned v

/-- The interrupt that a value stands for, if it stands for one. -/
def Value.interrupt? : Value → Option Interrupt
  | .error e => some (.error e)
  | .returned v => some (.returned v)
  | _ => none

/-- What evaluations act on: the scopes, the number of the next object, the output so far, and the
places noted for stored errors. -/
structure Machine where
  scopes : Scopes Value := .empty
  nextObject : ObjectId := 0
  output : String := ""
  places : OrderedMap ObjectId Location := []

/-- Appends a text to the output. -/
def Machine.write (m : Machine) (text : String) : Machine :=
  { m with output := m.output ++ text }

/-- The place of an error: the one it was made with, or else the one noted for it. -/
def Machine.placeOf (m : Machine) (e : RuntimeError) : Option Location :=
  e.location.or (e.object.bind fun id => OrderedMap.find? id m.places)

/-- Notes a place for a stored error that has none yet. -/
def Machine.notePlace (m : Machine) (e : RuntimeError) (location : Option Location) : Machine :=
  match m.placeOf e, e.object, location with
  | none, some id, some l => { m with places := OrderedMap.insert id l m.places }
  | _, _, _ => m

/-- The place of an error stays what it is. -/
theorem Machine.notePlace_of_placeOf {m : Machine} {e : RuntimeError} {l : Location}
    (h : m.placeOf e = some l) (location : Option Location) : m.notePlace e location = m := by
  simp [notePlace, h]

/-- Nothing is noted for an error without a number. -/
theorem Machine.notePlace_of_object {m : Machine} {e : RuntimeError} (h : e.object = none)
    (location : Option Location) : m.notePlace e location = m := by
  cases hp : m.placeOf e <;> simp [notePlace, hp, h]

/-- Nothing is noted without a place. -/
theorem Machine.notePlace_none (m : Machine) (e : RuntimeError) : m.notePlace e none = m := by
  unfold notePlace
  split
  · next h => cases h
  · rfl

/-- A stored error has its first place, whatever is noted later. -/
theorem Machine.placeOf_notePlace (m : Machine) {e : RuntimeError} {id : ObjectId}
    (h : e.object = some id) (location : Option Location) :
    (m.notePlace e location).placeOf e = (m.placeOf e).or location := by
  cases hp : m.placeOf e with
  | some l => simp [notePlace_of_placeOf hp, hp]
  | none =>
    cases location with
    | none => simp [notePlace, hp]
    | some l =>
      have hl : e.location = none := by
        unfold placeOf at hp
        exact (Option.or_eq_none_iff.1 hp).1
      have hm : m.notePlace e (some l) = { m with places := OrderedMap.insert id l m.places } := by
        simp [notePlace, hp, h]
      simp [hm, placeOf, h, hl]

/-- How an evaluation ends. -/
inductive Outcome (α : Type) where
  | value (a : α)
  | interrupt (i : Interrupt)
  /-- The depth limit was reached. -/
  | tooDeep

/-- An evaluation of `α`: it ends in some way and leaves a machine. -/
abbrev Eval (α : Type) := Machine → Outcome α × Machine

namespace Eval

variable {α β : Type}

/-- Runs one evaluation and, if it yields a value, another one. -/
@[always_inline, inline]
def andThen (x : Eval α) (f : α → Eval β) : Eval β := fun m =>
  match x m with
  | (.value a, m) => f a m
  | (.interrupt i, m) => (.interrupt i, m)
  | (.tooDeep, m) => (.tooDeep, m)

@[always_inline]
instance : Monad Eval where
  pure a := fun m => (.value a, m)
  bind := andThen

@[simp] theorem pure_apply (a : α) (m : Machine) : (pure a : Eval α) m = (.value a, m) := rfl

theorem bind_apply (x : Eval α) (f : α → Eval β) (m : Machine) :
    (x >>= f) m = match x m with
      | (.value a, m) => f a m
      | (.interrupt i, m) => (.interrupt i, m)
      | (.tooDeep, m) => (.tooDeep, m) := rfl

theorem bind_value {x : Eval α} {m m' : Machine} {a : α} (h : x m = (.value a, m'))
    (f : α → Eval β) : (x >>= f) m = f a m' := by
  rw [bind_apply, h]

theorem bind_interrupt {x : Eval α} {m m' : Machine} {i : Interrupt} (h : x m = (.interrupt i, m'))
    (f : α → Eval β) : (x >>= f) m = (.interrupt i, m') := by
  rw [bind_apply, h]

theorem bind_tooDeep {x : Eval α} {m m' : Machine} (h : x m = (.tooDeep, m'))
    (f : α → Eval β) : (x >>= f) m = (.tooDeep, m') := by
  rw [bind_apply, h]

/-! ### Endings -/

/-- Ends with an interrupt. -/
def interrupt (i : Interrupt) : Eval α := fun m => (.interrupt i, m)

/-- Ends because the depth limit is reached. -/
def tooDeep : Eval α := fun m => (.tooDeep, m)

/-- Ends with an error at a place. -/
def fault (location : Option Location) (f : Fault) : Eval α :=
  interrupt (.error { fault := f, location })

/-- Goes on with a result, or ends with its fault at a place. -/
def orFault (location : Option Location) : Except Fault α → Eval α
  | .ok a => pure a
  | .error f => fault location f

/-- Goes on with a value, unless the value is an interrupt. -/
def settle (v : Value) : Eval Value :=
  match v.interrupt? with
  | some i => interrupt i
  | none => pure v

/-- Takes a returned value: where it arrives, `return` has done its work.  Errors pass. -/
def takeReturned (x : Eval α) (f : Value → α) : Eval α := fun m =>
  match x m with
  | (.interrupt (.returned v), m) => (.value (f v), m)
  | other => other

/-! ### Effects -/

/-- Writes a line of output. -/
def writeLine (text : String) : Eval Unit := fun m =>
  (.value (), m.write (text ++ "\n"))

/-- A new object number. -/
def newObject : Eval ObjectId := fun m =>
  (.value m.nextObject, { m with nextObject := m.nextObject + 1 })

/-- A new array. -/
def newArray (elements : List Value) : Eval Value := do
  return .array (← newObject) elements

/-- A new hash. -/
def newHash (entries : Entries) : Eval Value := do
  return .hash (← newObject) entries

/-- A new function, made in a scope. -/
def newFunction (parameters : List (Name Token)) (body : Block Token) (scope : ScopeId) :
    Eval Value := do
  return .function (← newObject) parameters body scope

/-- A new error, for a host to store. -/
def newError (f : Fault) (location : Option Location) : Eval Value := do
  return .error { fault := f, location, object := some (← newObject) }

/-- Hands a value out in a call at a place.  If it is an error that has no place yet, it has that
one from now on. -/
def handOut (location : Option Location) : Value → Eval Value
  | .error e => fun m =>
    (.value (.error { e with location := (m.placeOf e).or location }), m.notePlace e location)
  | v => pure v

/-- A new scope inside another one. -/
def newScope (outer : Option ScopeId) (bindings : OrderedMap String Value := []) : Eval ScopeId :=
  fun m => (.value m.scopes.size, { m with scopes := m.scopes.create outer bindings })

/-- Binds a name in a scope. -/
def bindName (scope : ScopeId) (name : String) (v : Value) : Eval Unit := fun m =>
  (.value (), { m with scopes := m.scopes.bind scope name v })

/-- What a name is bound to, seen from a scope. -/
def lookup (scope : ScopeId) (name : String) : Eval (Option Value) := fun m =>
  (.value (m.scopes.lookup scope name), m)

end Eval

end MonkeyLang
