import MonkeyLang.Builtin.Apply
import MonkeyLang.Operator.Apply
import MonkeyLang.Proofs.ScopeLaws

/-!
# Data

An error and a value on its way out of a function are values too, since a host may store them.  A
program alone never stores one: whatever it binds, puts into an array or a hash, or returns is data.

## Main Definitions

* `Value.IsData` — neither an error nor a wrapped value, here or at any depth inside
* `Entries.AreData` — the same for the pairs of a hash
* `Machine.HoldsData` — everything that is bound in any scope is data
* `Value.IsAtom` — what operators yield
* `Interrupt.CarriesData`, `Interrupt.IsError` — what an interrupt may be, inside and outside calls

## Main Statements

* `Entries.AreData.insert` — storing data under its hash key
* `UnaryOp.isAtom_apply`, `BinaryOp.isAtom_apply` — operators yield atoms, which are data
* `Value.isData_at` — an index into data yields data

## Design Notes

Data says of each hash also that its slots are distinct and that each pair is stored in the slot of
its key.  The pairs of a hash are reached only through their slots, so this belongs to the
invariant.

Functions are data whatever they captured: the scope of a function is one of the machine's, and the
condition on the machine is about all scopes.
-/

namespace MonkeyLang

/-! ### Data -/

/-- **Data.**  Neither an error nor a wrapped value is data, and neither is anything with one of
them inside.  The slots of a hash are distinct, and each is the hash key of the key stored in it. -/
inductive Value.IsData : Value → Prop
  | null : IsData .null
  | boolean (b : Bool) : IsData (.boolean b)
  | integer (n : Int64) : IsData (.integer n)
  | string (s : String) : IsData (.string s)
  | array {id : ObjectId} {elements : List Value} (elements_data : ∀ v ∈ elements, IsData v) :
    IsData (.array id elements)
  | hash {id : ObjectId} {entries : Entries} (distinct : (OrderedMap.keys entries).Nodup)
      (slots : ∀ entry ∈ entries, entry.2.1.hashKey? = some entry.1)
      (keys : ∀ entry ∈ entries, IsData entry.2.1)
      (items : ∀ entry ∈ entries, IsData entry.2.2) : IsData (.hash id entries)
  | function (id : ObjectId) (parameters : List (Name Token)) (body : Block Token)
      (scope : ScopeId) : IsData (.function id parameters body scope)
  | builtin (b : Builtin) : IsData (.builtin b)

/-- What is asked of the pairs of a hash. -/
structure Entries.AreData (entries : Entries) : Prop where
  distinct : (OrderedMap.keys entries).Nodup
  slots : ∀ entry ∈ entries, entry.2.1.hashKey? = some entry.1
  keys : ∀ entry ∈ entries, entry.2.1.IsData
  items : ∀ entry ∈ entries, entry.2.2.IsData

namespace Value.IsData

/-- An array is data exactly when its elements are. -/
theorem array_iff {id : ObjectId} {elements : List Value} :
    (Value.array id elements).IsData ↔ ∀ v ∈ elements, v.IsData := by
  constructor
  · intro h
    cases h with
    | array elements_data => exact elements_data
  · exact IsData.array

/-- A hash is data exactly when its pairs are stored as they should be and consist of data. -/
theorem hash_iff {id : ObjectId} {entries : Entries} :
    (Value.hash id entries).IsData ↔ entries.AreData := by
  constructor
  · intro h
    cases h with
    | hash distinct slots keys items => exact ⟨distinct, slots, keys, items⟩
  · intro h
    exact IsData.hash h.distinct h.slots h.keys h.items

/-- Data never unwinds an evaluation. -/
theorem interrupt?_eq_none {v : Value} (h : v.IsData) : v.interrupt? = none := by
  cases h <;> rfl

/-- What may be missing counts as null. -/
theorem getD {found : Option Value} (h : ∀ v ∈ found, v.IsData) : (found.getD .null).IsData := by
  cases found with
  | none => exact IsData.null
  | some v => exact h v rfl

end Value.IsData

namespace Entries.AreData

theorem nil : Entries.AreData [] where
  distinct := List.nodup_nil
  slots := by simp
  keys := by simp
  items := by simp

/-- A pair that is stored under the hash key of its key. -/
theorem insert {stored : Entries} {slot : HashKey} {key item : Value} (h : stored.AreData)
    (hslot : key.hashKey? = some slot) (hkey : key.IsData) (hitem : item.IsData) :
    Entries.AreData (OrderedMap.insert slot (key, item) stored) where
  distinct := OrderedMap.nodup_keys_insert slot (key, item) h.distinct
  slots := by
    intro entry hmem
    rcases OrderedMap.mem_insert hmem with rfl | hold
    · exact hslot
    · exact h.slots entry hold
  keys := by
    intro entry hmem
    rcases OrderedMap.mem_insert hmem with rfl | hold
    · exact hkey
    · exact h.keys entry hold
  items := by
    intro entry hmem
    rcases OrderedMap.mem_insert hmem with rfl | hold
    · exact hitem
    · exact h.items entry hold

end Entries.AreData

/-! ### Machines and interrupts -/

/-- Everything that is bound in any scope is data. -/
def Machine.HoldsData (m : Machine) : Prop := m.scopes.Holds Value.IsData

/-- A returned value on its way is data. -/
def Interrupt.CarriesData : Interrupt → Prop
  | error _ => True
  | returned v => v.IsData

/-- The interrupt is an error: nothing is being returned. -/
def Interrupt.IsError : Interrupt → Prop
  | error _ => True
  | returned _ => False

/-- An error carries no value, and so nothing but data. -/
theorem Interrupt.IsError.carriesData {i : Interrupt} (h : i.IsError) : i.CarriesData := by
  cases i with
  | error e => trivial
  | returned v => cases h

/-! ### Operators -/

/-- Booleans, integers and strings: no other value is inside of one. -/
inductive Value.IsAtom : Value → Prop
  | boolean (b : Bool) : IsAtom (.boolean b)
  | integer (n : Int64) : IsAtom (.integer n)
  | string (s : String) : IsAtom (.string s)

theorem Value.IsAtom.isData {v : Value} (h : v.IsAtom) : v.IsData := by
  cases h with
  | boolean b => exact .boolean b
  | integer n => exact .integer n
  | string s => exact .string s

theorem UnaryOp.isAtom_apply {op : UnaryOp} {v result : Value} (h : op.apply v = .ok result) :
    result.IsAtom := by
  unfold UnaryOp.apply at h
  split at h
  · cases h
    exact .boolean _
  · cases h
    exact .integer _
  · cases h

namespace BinaryOp

/-- What comes of two integers is an integer or a truth value. -/
theorem isAtom_applyIntegers {op : BinaryOp} {a b : Int64} {result : Value}
    (h : op.applyIntegers a b = .ok result) : result.IsAtom := by
  unfold applyIntegers at h
  cases op with
  | add | subtract | multiply =>
    cases h
    exact .integer _
  | less | greater | equal | notEqual =>
    cases h
    exact .boolean _
  | divide =>
    simp only at h
    split at h
    · cases h
    · cases h
      exact .integer _

theorem isAtom_applyStrings {op : BinaryOp} {a b : String} {result : Value}
    (h : op.applyStrings a b = .ok result) : result.IsAtom := by
  unfold applyStrings at h
  split at h
  · cases h
    exact .string _
  · cases h

/-- What comes of two objects is a truth value, never one of them. -/
theorem isAtom_applyObjects {op : BinaryOp} {left right : Kind} {same : Bool} {result : Value}
    (h : op.applyObjects left right same = .ok result) : result.IsAtom := by
  unfold applyObjects at h
  by_cases hkind : left = right
  · rw [if_pos hkind] at h
    split at h
    · cases h
      exact .boolean _
    · cases h
      exact .boolean _
    · cases h
  · rw [if_neg hkind] at h
    cases h

/-- Operators yield atoms. -/
theorem isAtom_apply {op : BinaryOp} {left right result : Value} {same : Bool}
    (h : op.apply left right same = .ok result) : result.IsAtom := by
  unfold apply at h
  split at h
  · exact isAtom_applyIntegers h
  · exact isAtom_applyStrings h
  · exact isAtom_applyObjects h

end BinaryOp

theorem Builtin.isAtom_length {v result : Value} (h : length v = .ok result) : result.IsAtom := by
  unfold length at h
  split at h
  · cases h
    exact .integer _
  · cases h
    exact .integer _
  · cases h

/-! ### Containers -/

/-- An element of an array of data is data, and so is the null in place of a missing one. -/
theorem isData_elementAt {elements : List Value} (h : ∀ v ∈ elements, v.IsData) (place : Int) :
    (elementAt elements place).IsData := by
  unfold elementAt
  by_cases hplace : 0 ≤ place
  · rw [if_pos hplace]
    exact Value.IsData.getD fun v hv => h v (List.mem_of_getElem? hv)
  · rw [if_neg hplace]
    exact .null

/-- An index into data yields data. -/
theorem Value.isData_at {store subscript result : Value} (h : store.IsData)
    (hresult : store.at subscript = .ok result) : result.IsData := by
  unfold Value.at at hresult
  split at hresult
  · cases hresult
    exact isData_elementAt (IsData.array_iff.1 h) _
  · split at hresult
    · cases hresult
    · cases hresult
      refine IsData.getD fun v hv => ?_
      obtain ⟨entry, hfound, rfl⟩ := Option.map_eq_some_iff.1 hv
      exact (IsData.hash_iff.1 h).items _ (OrderedMap.mem_of_find? hfound)
  · cases hresult

end MonkeyLang
