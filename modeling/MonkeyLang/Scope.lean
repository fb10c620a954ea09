import MonkeyLang.OrderedMap

/-!
# Scopes

Names are bound in scopes.  A scope can lie inside another one, and sees the names of that one
unless it binds them itself.

## Main Definitions

* `Scope` — bindings, and the scope around it
* `Scopes` — all scopes that were ever made
* `Scopes.create`, `Scopes.bind`, `Scopes.lookup` — the operations

## Design Notes

A scope is known by its number, and stays when the call that made it has ended: a function may still
refer to it.  A new scope lies inside an older one, so the chain of enclosing scopes goes down in
number and a lookup ends.  A lookup follows no link that does not go down.
-/

namespace MonkeyLang

variable {ι : Type}

/-- The bindings of one scope, and the number of the scope around it. -/
structure Scope (ι : Type) where
  outer : Option Nat
  bindings : OrderedMap String ι

/-- All scopes; the place of a scope is its number. -/
structure Scopes (ι : Type) where
  all : Array (Scope ι)

namespace Scopes

/-- No scopes. -/
def empty : Scopes ι := ⟨#[]⟩

/-- The number that the next scope gets. -/
def size (s : Scopes ι) : Nat := s.all.size

/-- Makes a scope with the given first bindings. -/
def create (s : Scopes ι) (outer : Option Nat) (bindings : OrderedMap String ι := []) : Scopes ι :=
  ⟨s.all.push ⟨outer, bindings⟩⟩

/-- Binds a name in a scope. -/
def bind (s : Scopes ι) (id : Nat) (name : String) (item : ι) : Scopes ι :=
  ⟨s.all.modify id fun scope => { scope with bindings := scope.bindings.insert name item }⟩

/-- The bindings of one scope, without those of the scopes around it. -/
def bindings (s : Scopes ι) (id : Nat) : OrderedMap String ι :=
  match s.all[id]? with
  | some scope => scope.bindings
  | none => []

/-- Looks a name up in at most `budget` scopes, from the inside to the outside. -/
def lookupWithin (s : Scopes ι) (name : String) : Nat → Nat → Option ι
  | 0, _ => none
  | budget + 1, id =>
    match s.all[id]? with
    | none => none
    | some scope =>
      match scope.bindings.find? name with
      | some item => some item
      | none =>
        match scope.outer with
        | none => none
        | some outer => if outer < id then lookupWithin s name budget outer else none

/-- What a name is bound to, seen from a scope.  No chain that begins at a scope is longer than the
number of that scope allows. -/
def lookup (s : Scopes ι) (id : Nat) (name : String) : Option ι :=
  s.lookupWithin name (id + 1) id

end Scopes

end MonkeyLang
