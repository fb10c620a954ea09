import Mathlib.Data.List.Induction
import MonkeyLang.Proofs.EvalLaws
import MonkeyLang.Proofs.ScopeLaws

/-!
# The last write wins

A hash literal stores its items one after the other.  What it holds in the end is the last item that
was stored under each hash key, in the order in which the hash keys came first.

## Main Definitions

* `IsLast` — the last key and item of which the key has a property
* `LastItem` — the item, or null where no key has the property
* `Entries.ofWrites` — keys and items, stored one after the other
* `Evaluation.PairsYield` — the pairs of a literal are evaluated normally, to keys and items

## Main Statements

* `Value.hashKey?_eq_integer_iff`, `Value.hashKey?_eq_boolean_iff`, `Value.hashKey?_eq_string_iff` —
  which keys share a hash key
* `Entries.keys_ofWrites`, `Entries.find?_ofWrites_eq_some`, `Entries.lastItem_ofWrites` — the keys
  of a hash, and what is found in it
* `evaluate_hash` — **a hash literal, and every index into it**

## Design Notes

What is written is a list, in which keys may come again.  A write is the last one of its kind by
what stands behind it in this list, so that nothing of how a map is kept is in the statements.
-/

namespace MonkeyLang

/-! ### What is last -/

/-- The key of this write has the property, and no key behind it has. -/
def IsLast (p : Value → Prop) (writes : List (Value × Value)) (write : Value × Value) : Prop :=
  p write.1 ∧ ∃ before after, writes = before ++ write :: after ∧ ∀ later ∈ after, ¬p later.1

/-- The value is the item of the last write whose key has the property, or null if there is none. -/
def LastItem (p : Value → Prop) (writes : List (Value × Value)) (v : Value) : Prop :=
  (∃ key, IsLast p writes (key, v)) ∨ (∀ write ∈ writes, ¬p write.1) ∧ v = .null

section Last

variable {p q : Value → Prop} {writes : List (Value × Value)} {write : Value × Value}

theorem isLast_concat_self (h : p write.1) : IsLast p (writes ++ [write]) write :=
  ⟨h, writes, [], rfl, fun _ hlater => nomatch hlater⟩

/-- What is last stays last before a key without the property. -/
theorem IsLast.concat (h : IsLast p writes write) {other : Value × Value} (hother : ¬p other.1) :
    IsLast p (writes ++ [other]) write := by
  obtain ⟨hkey, before, after, rfl, hafter⟩ := h
  refine ⟨hkey, before, after ++ [other], by simp, ?_⟩
  exact List.forall_mem_append.2 ⟨hafter, List.forall_mem_singleton.2 hother⟩

theorem LastItem.congr {v : Value} (h : LastItem p writes v) (hpq : ∀ key, p key ↔ q key) :
    LastItem q writes v := by
  obtain rfl : p = q := funext fun key => propext (hpq key)
  exact h

end Last

/-! ### Keys that share a hash key -/

namespace Value

/-- An integer shares its hash key with itself alone. -/
theorem hashKey?_eq_integer_iff {key : Value} {n : Int64} :
    key.hashKey? = (integer n).hashKey? ↔ key = integer n := by
  constructor
  · intro h
    cases key with
    | integer k =>
      simp only [hashKey?, Option.some.injEq, HashKey.mk.injEq, true_and] at h
      rw [← Int64.toInt64_toUInt64 k, h, Int64.toInt64_toUInt64]
    | _ => simp [hashKey?] at h
  · rintro rfl
    rfl

/-- So does a boolean. -/
theorem hashKey?_eq_boolean_iff {key : Value} {b : Bool} :
    key.hashKey? = (boolean b).hashKey? ↔ key = boolean b := by
  constructor
  · intro h
    cases key with
    | boolean k => cases k <;> cases b <;> simp [hashKey?] at h ⊢
    | _ => simp [hashKey?] at h
  · rintro rfl
    rfl

/-- A string shares its hash key with the strings of the same digest. -/
theorem hashKey?_eq_string_iff {key : Value} {s : String} :
    key.hashKey? = (string s).hashKey? ↔
      ∃ t, key = string t ∧ Digest.ofString t = Digest.ofString s := by
  constructor
  · intro h
    cases key with
    | string t =>
      simp only [hashKey?, Option.some.injEq, HashKey.mk.injEq, true_and] at h
      exact ⟨t, rfl, h⟩
    | _ => simp [hashKey?] at h
  · rintro ⟨t, rfl, h⟩
    simp only [hashKey?, h]

end Value

/-! ### Writing to a hash -/

namespace Entries

/-- Stores an item under the hash key of its key, if it has one. -/
def store (stored : Entries) (write : Value × Value) : Entries :=
  match write.1.hashKey? with
  | some slot => OrderedMap.insert slot write stored
  | none => stored

/-- What is stored in the end. -/
def ofWrites (writes : List (Value × Value)) : Entries := writes.foldl store []

variable {writes : List (Value × Value)} {write : Value × Value} {slot : HashKey}

theorem ofWrites_concat (writes : List (Value × Value)) (write : Value × Value) :
    ofWrites (writes ++ [write]) = store (ofWrites writes) write := by
  simp [ofWrites]

/-- **The keys of a hash** are those that were written, each at its first place. -/
theorem keys_ofWrites (writes : List (Value × Value)) :
    OrderedMap.keys (ofWrites writes) =
      (writes.filterMap fun write => write.1.hashKey?).eraseDups := by
  induction writes using List.reverseRecOn with
  | nil => rfl
  | append_singleton writes write ih =>
    rw [ofWrites_concat, store, List.filterMap_append, List.eraseDups_append, ← ih]
    cases hslot : write.1.hashKey? with
    | none => simp [hslot, List.removeAll]
    | some slot =>
      have hmem : slot ∈ OrderedMap.keys (ofWrites writes) ↔
          slot ∈ writes.filterMap fun write => write.1.hashKey? := by
        rw [ih, List.mem_eraseDups]
      simp only [OrderedMap.keys_insert, hmem]
      split
      · next h => simp [hslot, List.removeAll, h]
      · next h => simp [hslot, List.removeAll, h, List.eraseDups_cons]

/-- No hash key is stored twice. -/
theorem nodup_keys_ofWrites (writes : List (Value × Value)) :
    (OrderedMap.keys (ofWrites writes)).Nodup := by
  induction writes using List.reverseRecOn with
  | nil => exact List.nodup_nil
  | append_singleton writes write ih =>
    rw [ofWrites_concat, store]
    split
    · exact OrderedMap.nodup_keys_insert _ _ ih
    · exact ih

/-- **What is found** under a hash key is what was written last under it, and nothing is found where
nothing was written. -/
theorem find?_ofWrites (writes : List (Value × Value)) (slot : HashKey) :
    (∃ write, OrderedMap.find? slot (ofWrites writes) = some write ∧
        IsLast (fun key => key.hashKey? = some slot) writes write) ∨
      OrderedMap.find? slot (ofWrites writes) = none ∧
        ∀ write ∈ writes, write.1.hashKey? ≠ some slot := by
  induction writes using List.reverseRecOn with
  | nil => exact .inr ⟨rfl, fun _ hmem => nomatch hmem⟩
  | append_singleton writes other ih =>
    rw [ofWrites_concat, store]
    by_cases hother : other.1.hashKey? = some slot
    · simp only [hother]
      exact .inl ⟨other, OrderedMap.find?_insert_self _ _ _, isLast_concat_self hother⟩
    · -- Something else is written, and leaves alone what was found before.
      have hkept : OrderedMap.find? slot (store (ofWrites writes) other) =
          OrderedMap.find? slot (ofWrites writes) := by
        rw [store]
        split
        · next written hwritten =>
          refine OrderedMap.find?_insert_of_ne ?_ _ _
          rintro rfl
          exact hother hwritten
        · rfl
      rw [← store, hkept]
      rcases ih with ⟨write, hfound, hlast⟩ | ⟨hnone, hmissing⟩
      · exact .inl ⟨write, hfound, hlast.concat hother⟩
      · refine .inr ⟨hnone, ?_⟩
        exact List.forall_mem_append.2 ⟨hmissing, List.forall_mem_singleton.2 hother⟩

/-- Each hash key holds the key and the item of its last occurrence. -/
theorem isLast_of_mem_ofWrites {entry : HashKey × (Value × Value)}
    (h : entry ∈ ofWrites writes) :
    IsLast (fun key => key.hashKey? = some entry.1) writes entry.2 := by
  have hfound : OrderedMap.find? entry.1 (ofWrites writes) = some entry.2 :=
    OrderedMap.find?_of_mem (nodup_keys_ofWrites writes) h
  rcases find?_ofWrites writes entry.1 with ⟨write, hwrite, hlast⟩ | ⟨hnone, -⟩
  · rw [hfound] at hwrite
    cases hwrite
    exact hlast
  · rw [hfound] at hnone
    cases hnone

/-- **An index yields the last item** that was stored under its hash key, and null if there is
none. -/
theorem at_ofWrites (id : ObjectId) (writes : List (Value × Value)) {index : Value}
    (h : index.hashKey?.isSome) :
    ∃ v, (Value.hash id (ofWrites writes)).at index = .ok v ∧
      LastItem (fun key => key.hashKey? = index.hashKey?) writes v := by
  obtain ⟨slot, hslot⟩ := Option.isSome_iff_exists.1 h
  have hat : (Value.hash id (ofWrites writes)).at index =
      .ok (((OrderedMap.find? slot (ofWrites writes)).map Prod.snd).getD .null) := by
    simp only [Value.at, hslot]
  rw [hat, hslot]
  rcases find?_ofWrites writes slot with ⟨write, hfound, hlast⟩ | ⟨hnone, hmissing⟩
  · rw [hfound]
    exact ⟨write.2, rfl, .inl ⟨write.1, hlast⟩⟩
  · rw [hnone]
    exact ⟨.null, rfl, .inr ⟨hmissing, rfl⟩⟩

end Entries

/-! ### Hash literals -/

namespace Evaluation

/-- **The pairs of a literal are evaluated normally**, one after the other and each key before its
item, to the keys and items that are given. -/
inductive PairsYield (inner : Inner) (scope : ScopeId) :
    List (Expr Token × Expr Token) → List (Value × Value) → Machine → Machine → Prop
  | nil (m : Machine) : PairsYield inner scope [] [] m m
  | cons {k e : Expr Token} {key item : Value} {pairs : List (Expr Token × Expr Token)}
      {writes : List (Value × Value)} {m between behind m' : Machine}
      (hkey : inner scope k m = (.value key, between))
      (hitem : inner scope e between = (.value item, behind))
      (htail : PairsYield inner scope pairs writes behind m') :
      PairsYield inner scope ((k, e) :: pairs) ((key, item) :: writes) m m'

variable {inner : Inner} {scope : ScopeId}

/-- If every key can be used, the items are stored one after the other. -/
theorem entries_of_pairsYield {pairs : List (Expr Token × Expr Token)}
    {writes : List (Value × Value)} {m m' : Machine} (h : PairsYield inner scope pairs writes m m')
    (hkeys : ∀ write ∈ writes, write.1.hashKey?.isSome) (stored : Entries) :
    entries inner scope stored pairs m = (.value (writes.foldl Entries.store stored), m') := by
  induction h generalizing stored with
  | nil m => rfl
  | @cons k e key item pairs writes m between behind m' hkey hitem _ ih =>
    obtain ⟨hwrite, hkeys⟩ := List.forall_mem_cons.1 hkeys
    obtain ⟨slot, hslot⟩ := Option.isSome_iff_exists.1 hwrite
    have hstore : Entries.store stored (key, item) = stored.insert slot (key, item) := by
      simp only [Entries.store, hslot]
    rw [entries, Eval.bind_value hkey, hslot, List.foldl_cons, hstore]
    exact (Eval.bind_value hitem _).trans (ih hkeys _)

end Evaluation

/-- **A hash literal is a map in which the last write wins.**  Let the pairs of a literal be
evaluated normally, to keys that can be used and to items.  Then the literal yields a hash.  It has
one pair for each hash key, in the order in which the hash keys came first, and each pair is the key
and the item that came last under it.  An index into the hash yields the item that came last under
the hash key of the index, and null if there is none.  For an integer or a boolean, this is the last
key that is equal to it, whatever other keys there are; for a string, it is the last key that is a
string with the same digest, as every equal string is. -/
theorem evaluate_hash {depth : Nat} {scope : ScopeId} {pairs : List (Expr Token × Expr Token)}
    {writes : List (Value × Value)} {m m' : Machine} (tok : Token)
    (h : Evaluation.PairsYield (evaluate depth) scope pairs writes m m')
    (hkeys : ∀ write ∈ writes, write.1.hashKey?.isSome) :
    ∃ (id : ObjectId) (entries : Entries),
      evaluate (depth + 1) scope (.hash tok pairs) m =
        (.value (.hash id entries), { m' with nextObject := m'.nextObject + 1 }) ∧
      OrderedMap.keys entries = (writes.filterMap fun write => write.1.hashKey?).eraseDups ∧
      (OrderedMap.keys entries).Nodup ∧
      (∀ entry ∈ entries, IsLast (fun key => key.hashKey? = some entry.1) writes entry.2) ∧
      (∀ index, index.hashKey?.isSome → ∃ v, (Value.hash id entries).at index = .ok v ∧
        LastItem (fun key => key.hashKey? = index.hashKey?) writes v) ∧
      (∀ n, ∃ v, (Value.hash id entries).at (.integer n) = .ok v ∧
        LastItem (· = .integer n) writes v) ∧
      (∀ b, ∃ v, (Value.hash id entries).at (.boolean b) = .ok v ∧
        LastItem (· = .boolean b) writes v) ∧
      ∀ s, ∃ v, (Value.hash id entries).at (.string s) = .ok v ∧
        LastItem (fun key => ∃ t, key = .string t ∧ Digest.ofString t = Digest.ofString s)
          writes v := by
  have hat (index : Value) (hindex : index.hashKey?.isSome) :=
    Entries.at_ofWrites m'.nextObject writes hindex
  refine ⟨m'.nextObject, Entries.ofWrites writes, ?_, Entries.keys_ofWrites writes,
    Entries.nodup_keys_ofWrites writes, fun _ => Entries.isLast_of_mem_ofWrites, hat,
    fun n => ?_, fun b => ?_, fun s => ?_⟩
  · exact Eval.bind_value (Evaluation.entries_of_pairsYield h hkeys []) _
  · obtain ⟨v, hv, hlast⟩ := hat (.integer n) rfl
    exact ⟨v, hv, hlast.congr fun _ => Value.hashKey?_eq_integer_iff⟩
  · obtain ⟨v, hv, hlast⟩ := hat (.boolean b) rfl
    exact ⟨v, hv, hlast.congr fun _ => Value.hashKey?_eq_boolean_iff⟩
  · obtain ⟨v, hv, hlast⟩ := hat (.string s) rfl
    exact ⟨v, hv, hlast.congr fun _ => Value.hashKey?_eq_string_iff⟩

/-- In the hash `1: "a", true: 2, "1": 3, 1: 4` of four pairs, the last one takes the place of the
first one. -/
theorem evaluate_hash_repeated :
    let tok : Token := ⟨.symbol .leftBrace, none⟩
    let number (n : Nat) : Expr Token := .integer tok n
    let pairs : List (Expr Token × Expr Token) := [(number 1, .string tok "a"),
      (.boolean tok true, number 2), (.string tok "1", number 3), (number 1, number 4)]
    let writes : List (Value × Value) := [(.integer 1, .string "a"), (.boolean true, .integer 2),
      (.string "1", .integer 3), (.integer 1, .integer 4)]
    Evaluation.PairsYield (evaluate 1) 0 pairs writes {} {} ∧
      (∀ write ∈ writes, write.1.hashKey?.isSome) ∧
      ∃ id entries, evaluate 2 0 (.hash tok pairs) {} = (.value (.hash id entries),
          { nextObject := 1 }) ∧
        OrderedMap.keys entries =
          [⟨.integer, 1⟩, ⟨.boolean, 1⟩, ⟨.string, Digest.ofString "1"⟩] ∧
        (Value.hash id entries).at (.integer 1) = .ok (.integer 4) ∧
        (Value.hash id entries).at (.boolean false) = .ok .null := by
  intro tok number pairs writes
  have hyields : Evaluation.PairsYield (evaluate 1) 0 pairs writes {} {} :=
    .cons rfl rfl (.cons rfl rfl (.cons rfl rfl (.cons rfl rfl (.nil _))))
  have hkeys : ∀ write ∈ writes, write.1.hashKey?.isSome := by simp [writes, Value.hashKey?]
  obtain ⟨id, entries, heval, horder, -⟩ := evaluate_hash tok hyields hkeys
  have hslots : (writes.filterMap fun write => write.1.hashKey?).eraseDups =
      [⟨.integer, 1⟩, ⟨.boolean, 1⟩, ⟨.string, Digest.ofString "1"⟩] := by decide +kernel
  refine ⟨hyields, hkeys, id, entries, heval, horder.trans hslots, ?_⟩
  cases heval
  exact ⟨rfl, rfl⟩

end MonkeyLang
