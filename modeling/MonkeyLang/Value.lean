import MonkeyLang.Digest
import MonkeyLang.Fault
import MonkeyLang.OrderedMap
import MonkeyLang.Program.Render

/-!
# Values

What expressions evaluate to.

## Main Definitions

* `HashKey` — the part of a key that decides where a hash stores it
* `Value` — the values
* `Value.kind`, `Value.isTruthy`, `Value.hashKey?` — the basic questions about a value
* `Value.render` — the text of a value
* `Value.equal` — equality of contents
* `Value.isSame` — identity

## Design Notes

An array, a hash and a function carry an identity, a number given out when it was made: the language
compares them by it.  Their contents never change, so nothing else depends on it.  An error that a
host stores carries a number too, under which the machine notes a place for it.

Two keys of a hash are the same when their hash keys are.  For strings that is the equality of
digests.

An error and the wrapper of a returned value are values, since a host program may store them.  An
evaluation that meets one does not compute with it: see `Interrupt`.
-/

namespace MonkeyLang

/-- The number of a scope. -/
abbrev ScopeId := Nat

/-- What decides where a hash stores a key: its type and a 64-bit word. -/
structure HashKey where
  kind : Kind
  word : UInt64
deriving DecidableEq

/-- Values. -/
inductive Value where
  | null
  | boolean (b : Bool)
  | integer (n : Int64)
  | string (s : String)
  | array (id : ObjectId) (elements : List Value)
  /-- The pairs are stored under the hash keys of their keys. -/
  | hash (id : ObjectId) (entries : List (HashKey × (Value × Value)))
  /-- A function with the scope in which it was made. -/
  | function (id : ObjectId) (parameters : List (Name Token)) (body : Block Token) (scope : ScopeId)
  | builtin (b : Builtin)
  | error (e : RuntimeError)
  /-- A value on its way out of a function. -/
  | returned (v : Value)

/-- The pairs of a hash, in the order in which their keys were first stored. -/
abbrev Entries := OrderedMap HashKey (Value × Value)

namespace Value

/-- The type of a value. -/
def kind : Value → Kind
  | null => .null
  | boolean _ => .boolean
  | integer _ => .integer
  | string _ => .string
  | array _ _ => .array
  | hash _ _ => .hash
  | function _ _ _ _ => .function
  | builtin _ => .builtin
  | error _ => .error
  | returned _ => .returned

/-- Every value counts as true except `false` and `null`. -/
def isTruthy : Value → Bool
  | null => false
  | boolean b => b
  | _ => true

/-- Where a hash stores a key; only booleans, integers and strings can be keys. -/
def hashKey? : Value → Option HashKey
  | boolean b => some ⟨.boolean, if b then 1 else 0⟩
  | integer n => some ⟨.integer, n.toUInt64⟩
  | string s => some ⟨.string, Digest.ofString s⟩
  | _ => none

/-! ### Text -/

mutual

/-- The text of a value. -/
def render : Value → String
  | null => "null"
  | boolean b => if b then "true" else "false"
  | integer n => toString n.toInt
  | string s => s
  | array _ elements => "[" ++ ", ".intercalate (renderAll elements) ++ "]"
  | hash _ entries => "\x7b" ++ ", ".intercalate (renderEntries entries) ++ "\x7d"
  | function _ parameters body _ => "fn" ++ renderParameters parameters ++ " " ++ body.render
  | builtin b => b.name ++ "@builtin"
  | error e => "ERROR: " ++ e.message
  | returned v => v.render
termination_by structural v => v

/-- The texts of a list of values. -/
def renderAll : List Value → List String
  | [] => []
  | v :: vs => v.render :: renderAll vs
termination_by structural vs => vs

/-- The texts of the pairs of a hash. -/
def renderEntries : List (HashKey × (Value × Value)) → List String
  | [] => []
  | (_, (key, item)) :: entries => (key.render ++ ": " ++ item.render) :: renderEntries entries
termination_by structural entries => entries

end

/-! ### Equality -/

mutual

/-- Equality of contents.  Arrays are equal element by element, and hashes as maps, whatever the
order of their pairs; functions are equal only to themselves; errors are equal when their texts are,
wherever they occurred. -/
def equal : Value → Value → Bool
  | null, null => true
  | boolean a, boolean b => a == b
  | integer a, integer b => a == b
  | string a, string b => a == b
  | array _ as, array _ bs => equalAll as bs
  | hash _ as, hash _ bs => as.length == bs.length && equalEntries as bs
  | function i _ _ _, function j _ _ _ => i == j
  | builtin a, builtin b => a == b
  | error a, error b => a.message == b.message
  | returned a, returned b => a.equal b
  | _, _ => false
termination_by structural a => a

/-- Whether two lists of values are equal place by place. -/
def equalAll : List Value → List Value → Bool
  | [], [] => true
  | a :: as, b :: bs => a.equal b && equalAll as bs
  | _, _ => false
termination_by structural as => as

/-- Whether each pair of the first list is stored in the second one under the same hash key. -/
def equalEntries : List (HashKey × (Value × Value)) → Entries → Bool
  | [], _ => true
  | (slot, (key, item)) :: entries, others =>
    (match others.find? slot with
      | some (key', item') => key.equal key' && item.equal item'
      | none => false) && equalEntries entries others
termination_by structural entries => entries

end

/-- Identity.  Null, booleans and built-in functions exist once each; an array, a hash, a function
or a stored error is known by its number. -/
def isSame : Value → Value → Bool
  | null, null => true
  | boolean a, boolean b => a == b
  | builtin a, builtin b => a == b
  | array i _, array j _ => i == j
  | hash i _, hash j _ => i == j
  | function i _ _ _, function j _ _ _ => i == j
  | error a, error b => a.object.isSome && a.object == b.object
  | _, _ => false

end Value

end MonkeyLang
