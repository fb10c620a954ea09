/-!
# Ordered maps

A map that remembers the order in which its keys were first stored.

## Main Definitions

* `OrderedMap` — pairs of a key and an item, in order
* `OrderedMap.find?` — the item stored under a key
* `OrderedMap.insert` — stores an item: an existing key keeps its place, a new one goes last
* `OrderedMap.keys` — the keys in order

## Design Notes

Both the bindings of a scope and the pairs of a hash are such maps.  The pairs stand in a plain
list, so that a map can hold values that hold maps.
-/

namespace MonkeyLang

/-- Items with their keys, in the order in which the keys were first stored. -/
abbrev OrderedMap (κ ι : Type) := List (κ × ι)

namespace OrderedMap

variable {κ ι : Type} [DecidableEq κ]

/-- The item stored under a key. -/
def find? (key : κ) : OrderedMap κ ι → Option ι
  | [] => none
  | (k, item) :: rest => if k = key then some item else find? key rest

/-- Stores an item under a key.  An existing key keeps its place, a new one goes to the end. -/
def insert (key : κ) (item : ι) : OrderedMap κ ι → OrderedMap κ ι
  | [] => [(key, item)]
  | (k, old) :: rest => if k = key then (key, item) :: rest else (k, old) :: insert key item rest

/-- The keys in order. -/
def keys (m : OrderedMap κ ι) : List κ := m.map Prod.fst

@[simp] theorem find?_nil (key : κ) : find? key ([] : OrderedMap κ ι) = none := rfl

@[simp] theorem find?_insert_self (key : κ) (item : ι) (m : OrderedMap κ ι) :
    find? key (insert key item m) = some item := by
  induction m with
  | nil => simp [insert, find?]
  | cons pair rest ih =>
    obtain ⟨k, old⟩ := pair
    by_cases h : k = key
    · simp [insert, find?, h]
    · simp [insert, find?, h, ih]

theorem find?_insert_of_ne {key other : κ} (h : other ≠ key) (item : ι) (m : OrderedMap κ ι) :
    find? other (insert key item m) = find? other m := by
  induction m with
  | nil =>
    have h' : key ≠ other := fun e => h e.symm
    simp [insert, find?, h']
  | cons pair rest ih =>
    obtain ⟨k, old⟩ := pair
    by_cases hk : k = key
    · have h' : key ≠ other := fun e => h e.symm
      simp [insert, find?, hk, h']
    · by_cases ho : k = other
      · simp [insert, find?, ho, h]
      · simp [insert, find?, hk, ho, ih]

/-- Storing under an existing key changes no key; storing under a new one adds it at the end. -/
theorem keys_insert (key : κ) (item : ι) (m : OrderedMap κ ι) :
    keys (insert key item m) = if key ∈ keys m then keys m else keys m ++ [key] := by
  induction m with
  | nil => simp [insert, keys]
  | cons pair rest ih =>
    obtain ⟨k, old⟩ := pair
    by_cases h : k = key
    · simp [insert, keys, h]
    · have h' : key ≠ k := fun e => h e.symm
      simp only [keys] at ih
      by_cases hm : key ∈ rest.map Prod.fst
      · simp [insert, keys, h, ih, hm]
      · simp [insert, keys, h, h', ih, hm]

/-- Distinct keys stay distinct. -/
theorem nodup_keys_insert (key : κ) (item : ι) {m : OrderedMap κ ι} (h : (keys m).Nodup) :
    (keys (insert key item m)).Nodup := by
  rw [keys_insert]
  split
  · exact h
  · next hm =>
    rw [List.nodup_append]
    exact ⟨h, by simp, fun a ha b hb => by
      rw [List.mem_singleton.1 hb]
      exact fun e => hm (e ▸ ha)⟩

end OrderedMap

end MonkeyLang
