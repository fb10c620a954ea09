import MonkeyLang.Text.Quoted

/-!
# Built-in functions: names

The functions that exist without being defined.  A binding of the same name hides one.

## Main Definitions

* `Builtin` — the built-in functions
* `Builtin.name`, `Builtin.ofName?` — their names
* `Builtin.arity` — how many arguments they take
-/

namespace MonkeyLang

/-- The built-in functions. -/
inductive Builtin where
  | len
  | first
  | last
  | rest
  | push
  | puts
deriving DecidableEq

namespace Builtin

/-- The name of a built-in function. -/
def name : Builtin → String
  | len => "len"
  | first => "first"
  | last => "last"
  | rest => "rest"
  | push => "push"
  | puts => "puts"

/-- Every built-in function. -/
def all : List Builtin := [len, first, last, rest, push, puts]

/-- The built-in function with a given name. -/
def ofName? (name : String) : Option Builtin := all.find? fun b => b.name == name

/-- Each builtin is found by its name. -/
@[simp] theorem ofName?_name (b : Builtin) : ofName? b.name = some b := by
  cases b <;> decide

/-- The number of arguments; `none` when any number will do. -/
def arity : Builtin → Option Nat
  | len | first | last | rest => some 1
  | push => some 2
  | puts => none

end Builtin

end MonkeyLang
