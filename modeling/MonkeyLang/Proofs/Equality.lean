import Mathlib.Data.List.Nodup
import Mathlib.Data.List.Perm.Basic
import Mathlib.Logic.Relation
import MonkeyLang.Proofs.Data

/-!
# Equality

What equality sees of a value, and what it does not see: in which order the pairs of a hash were
stored, where an error occurred, and which of all arrays or hashes with these contents it is.

## Main Definitions

* `Value.IsKeyed`, `KeyedValue` — values whose hashes keep distinct keys
* `Value.Recast`, `Value.Recasts` — one change that equality does not see, and any number of them
* `Value.PairRelated`, `Value.PairEqual` — pairs in one slot, with related keys and items
* `Value.Match` — the pairs of two hashes are equal, in some order

## Main Statements

* `Value.IsData.isKeyed` — data is among these values
* `Value.equal_array_iff`, `Value.equal_hash_iff`, `Value.equal_returned_iff`,
  `Value.IsFlat.equal_iff` — what is equal to a value
* `Value.equal_refl`, `Value.equal_symm`, `Value.equal_trans` — the laws of an equivalence
* `Value.equal_replace_element`, `Value.equal_replace_pair` — equals in place of equals
* `Value.equal_of_recasts`, `Value.recasts_of_equal` — equality sees everything but such changes
* `Value.hashKey?_eq_of_equal` — equal values have the same hash key
* `Value.equality_laws` — **equality is an equivalence that agrees with hash keys**

## Design Notes

Equality counts the pairs of two hashes, and looks for each pair of the first one in the second.
The search is one-sided; together with the count it says that the pairs are the same in some order,
but only where keys are distinct.  With an order of the pairs in the statement, hashes are compared
place by place, as arrays are, and the laws of an equivalence are proved in the same way for both.

Distinct keys are asked of the value on the left alone: what is equal to it has distinct keys too.
-/

namespace MonkeyLang

/-! ### Lists that are related place by place -/

section Lists

variable {α : Type} {R S : α → α → Prop} {as bs cs : List α}

/-- A relation may be weakened where its left side is a member. -/
theorem forall₂_imp_of_mem (h : List.Forall₂ R as bs) (himp : ∀ a ∈ as, ∀ b, R a b → S a b) :
    List.Forall₂ S as bs :=
  ((List.forall₂_and_left as bs).2 ⟨himp, h⟩).imp fun _ b hab => hab.1 b hab.2

theorem forall₂_trans_of_mem (hab : List.Forall₂ R as bs) (hbc : List.Forall₂ R bs cs)
    (htrans : ∀ a ∈ as, ∀ b c, R a b → R b c → R a c) : List.Forall₂ R as cs := by
  induction hab generalizing cs with
  | nil => exact hbc
  | cons hhead _ ih =>
    obtain ⟨hfirst, hrest⟩ := List.forall_mem_cons.1 htrans
    obtain ⟨c, cs', hhead', htail', rfl⟩ := List.forall₂_cons_left_iff.1 hbc
    exact .cons (hfirst _ _ hhead hhead') (ih htail' hrest)

/-- On the right is only what is related to a member on the left. -/
theorem exists_mem_of_forall₂ {b : α} (h : List.Forall₂ R as bs) (hb : b ∈ bs) :
    ∃ a ∈ as, R a b := by
  induction h with
  | nil => cases hb
  | cons hhead _ ih =>
    rcases List.mem_cons.1 hb with rfl | hb
    · exact ⟨_, List.mem_cons_self, hhead⟩
    · obtain ⟨a, ha, hab⟩ := ih hb
      exact ⟨a, List.mem_cons_of_mem _ ha, hab⟩

/-- What is related to the members, one after the other. -/
theorem exists_forall₂ {p : α → Prop} (h : ∀ a ∈ as, ∃ b, p b ∧ R a b) :
    ∃ bs, List.Forall₂ R as bs ∧ ∀ b ∈ bs, p b := by
  induction as with
  | nil => exact ⟨[], .nil, fun _ hmem => nomatch hmem⟩
  | cons a as ih =>
    obtain ⟨⟨b, hb, hab⟩, hrest⟩ := List.forall_mem_cons.1 h
    obtain ⟨bs, hbs, hall⟩ := ih hrest
    exact ⟨b :: bs, .cons hab hbs, List.forall_mem_cons.2 ⟨hb, hall⟩⟩

/-- One place may be related to another value, if every other place is related to itself. -/
theorem forall₂_replace {before after : List α} {a b : α} (hbefore : ∀ x ∈ before, R x x)
    (hab : R a b) (hafter : ∀ x ∈ after, R x x) :
    List.Forall₂ R (before ++ a :: after) (before ++ b :: after) :=
  List.rel_append (List.forall₂_same.2 hbefore) (.cons hab (List.forall₂_same.2 hafter))

/-- What is made of a list changes step by step, if each member does. -/
theorem reflTransGen_of_forall₂ {β : Type} {T : β → β → Prop} (f : List α → β)
    (hstep : ∀ before a b after, R a b →
      Relation.ReflTransGen T (f (before ++ a :: after)) (f (before ++ b :: after)))
    (h : List.Forall₂ R as bs) (before : List α) :
    Relation.ReflTransGen T (f (before ++ as)) (f (before ++ bs)) := by
  induction h generalizing before with
  | nil => exact .refl
  | @cons a b as bs hab _ ih =>
    have hrest := ih (before ++ [b])
    rw [← List.append_cons, ← List.append_cons] at hrest
    exact (hstep before a b as hab).trans hrest

end Lists

namespace Value

/-! ### Distinct keys -/

/-- No other value is inside of the value. -/
def IsFlat : Value → Prop
  | array _ _ | hash _ _ | returned _ => False
  | _ => True

/-- **Values whose hashes keep distinct keys**, at any depth. -/
inductive IsKeyed : Value → Prop
  | flat {v : Value} (h : v.IsFlat) : IsKeyed v
  | array {id : ObjectId} {elements : List Value} (elements_keyed : ∀ v ∈ elements, IsKeyed v) :
    IsKeyed (.array id elements)
  | hash {id : ObjectId} {entries : Entries} (distinct : (OrderedMap.keys entries).Nodup)
      (keys : ∀ entry ∈ entries, IsKeyed entry.2.1)
      (items : ∀ entry ∈ entries, IsKeyed entry.2.2) : IsKeyed (.hash id entries)
  | returned {v : Value} (h : IsKeyed v) : IsKeyed (.returned v)

namespace IsKeyed

variable {id : ObjectId} {elements : List Value} {entries : Entries} {v : Value}

theorem array_iff : (Value.array id elements).IsKeyed ↔ ∀ v ∈ elements, v.IsKeyed := by
  constructor
  · intro h
    cases h with
    | flat h => cases h
    | array elements_keyed => exact elements_keyed
  · exact .array

theorem hash_iff :
    (Value.hash id entries).IsKeyed ↔ (OrderedMap.keys entries).Nodup ∧
      ∀ entry ∈ entries, entry.2.1.IsKeyed ∧ entry.2.2.IsKeyed := by
  constructor
  · intro h
    cases h with
    | flat h => cases h
    | hash distinct keys items =>
      exact ⟨distinct, fun entry hmem => ⟨keys entry hmem, items entry hmem⟩⟩
  · rintro ⟨distinct, hpairs⟩
    exact .hash distinct (fun entry hmem => (hpairs entry hmem).1)
      fun entry hmem => (hpairs entry hmem).2

theorem returned_iff : (Value.returned v).IsKeyed ↔ v.IsKeyed := by
  constructor
  · intro h
    cases h with
    | flat h => cases h
    | returned h => exact h
  · exact .returned

end IsKeyed

/-- Whatever a program holds keeps distinct keys. -/
theorem IsData.isKeyed {v : Value} (hv : v.IsData) : v.IsKeyed := by
  induction hv with
  | array _ ih => exact .array ih
  | hash distinct _ _ _ ihkeys ihitems => exact .hash distinct ihkeys ihitems
  | _ => exact .flat trivial

end Value

/-- A value whose hashes keep distinct keys. -/
abbrev KeyedValue := { v : Value // v.IsKeyed }

namespace Value

/-! ### Pairs of a hash -/

/-- The pairs stand in the same slot, and their keys and their items are related. -/
structure PairRelated (R : Value → Value → Prop) (entry other : HashKey × (Value × Value)) :
    Prop where
  slot : entry.1 = other.1
  key : R entry.2.1 other.2.1
  item : R entry.2.2 other.2.2

/-- Related pairs, one by one, have the same keys. -/
theorem keys_eq_of_forall₂ {R : Value → Value → Prop} {entries others : Entries}
    (h : List.Forall₂ (PairRelated R) entries others) :
    OrderedMap.keys entries = OrderedMap.keys others := by
  induction h with
  | nil => rfl
  | cons hhead _ ih => exact congrArg₂ (· :: ·) hhead.slot ih

/-! ### What equality does not see -/

/-- **One change that equality does not see**, at one place and at any depth. -/
inductive Recast : Value → Value → Prop
  /-- Another array of the same elements. -/
  | array (id id' : ObjectId) (elements : List Value) :
    Recast (.array id elements) (.array id' elements)
  /-- Another hash of the same pairs, in whatever order they were stored. -/
  | hash (id id' : ObjectId) {entries entries' : Entries} (horder : entries.Perm entries') :
    Recast (.hash id entries) (.hash id' entries')
  /-- A function is known by its number alone. -/
  | function (id : ObjectId) (parameters parameters' : List (Name Token))
      (body body' : Block Token) (scope scope' : ScopeId) :
    Recast (.function id parameters body scope) (.function id parameters' body' scope')
  /-- Another error with the same text, wherever it occurred. -/
  | error {e e' : RuntimeError} (h : e.message = e'.message) : Recast (.error e) (.error e')
  | element (id : ObjectId) (before : List Value) {v w : Value} (after : List Value)
      (h : Recast v w) :
    Recast (.array id (before ++ v :: after)) (.array id (before ++ w :: after))
  | key (id : ObjectId) (before : Entries) (slot : HashKey) {v w : Value} (item : Value)
      (after : Entries) (h : Recast v w) :
    Recast (.hash id (before ++ (slot, (v, item)) :: after))
      (.hash id (before ++ (slot, (w, item)) :: after))
  | item (id : ObjectId) (before : Entries) (slot : HashKey) (key : Value) {v w : Value}
      (after : Entries) (h : Recast v w) :
    Recast (.hash id (before ++ (slot, (key, v)) :: after))
      (.hash id (before ++ (slot, (key, w)) :: after))
  | returned {v w : Value} (h : Recast v w) : Recast (.returned v) (.returned w)

/-- Any number of changes that equality does not see. -/
abbrev Recasts : Value → Value → Prop := Relation.ReflTransGen Recast

/-- A change can be undone. -/
theorem Recast.symm {v w : Value} (h : Recast v w) : Recast w v := by
  induction h with
  | array id id' elements => exact .array id' id elements
  | hash id id' horder => exact .hash id' id horder.symm
  | function id parameters parameters' body body' scope scope' =>
    exact .function id parameters' parameters body' body scope' scope
  | error h => exact .error h.symm
  | element id before after _ ih => exact .element id before after ih
  | key id before slot item after _ ih => exact .key id before slot item after ih
  | item id before slot key after _ ih => exact .item id before slot key after ih
  | returned _ ih => exact .returned ih

/-- Inside of another value, such changes are such changes of that value. -/
theorem Recasts.within {f : Value → Value} (hf : ∀ v w, Recast v w → Recast (f v) (f w))
    {v w : Value} (h : Recasts v w) : Recasts (f v) (f w) :=
  Relation.ReflTransGen.lift f hf _ _ h

theorem Recasts.symm {v w : Value} (h : Recasts v w) : Recasts w v := by
  induction h with
  | refl => exact .refl
  | tail _ hlast ih => exact .head hlast.symm ih

/-- Elements that change are changes of an array. -/
theorem Recasts.elements (id id' : ObjectId) {elements elements' : List Value}
    (h : List.Forall₂ Recasts elements elements') :
    Recasts (.array id elements) (.array id' elements') := by
  have hchanged := reflTransGen_of_forall₂ (array id)
    (fun before _ _ after => Recasts.within fun _ _ => .element id before after) h []
  exact hchanged.tail (.array id id' elements')

/-- The key and the item of one pair change, one after the other. -/
theorem Recasts.pair (id : ObjectId) (before after : Entries)
    {entry other : HashKey × (Value × Value)} (h : PairRelated Recasts entry other) :
    Recasts (.hash id (before ++ entry :: after)) (.hash id (before ++ other :: after)) := by
  obtain ⟨slot, key, item⟩ := entry
  obtain ⟨_, key', item'⟩ := other
  obtain ⟨rfl, hkey, hitem⟩ := h
  have hfirst := Recasts.within (fun _ _ => .key id before slot item after) hkey
  have hsecond := Recasts.within (fun _ _ => .item id before slot key' after) hitem
  exact hfirst.trans hsecond

/-- Keys and items that change are changes of a hash, and so is their order. -/
theorem Recasts.pairs (id id' : ObjectId) {entries ordered others : Entries}
    (h : List.Forall₂ (PairRelated Recasts) entries ordered) (horder : ordered.Perm others) :
    Recasts (.hash id entries) (.hash id' others) := by
  have hchanged := reflTransGen_of_forall₂ (hash id)
    (fun before _ _ after => Recasts.pair id before after) h []
  exact hchanged.tail (.hash id id' horder)

/-! ### Equal pairs in some order -/

/-- The pairs are equal, in the same slot. -/
abbrev PairEqual := PairRelated fun v w => v.equal w = true

/-- **The pairs of two hashes match**: put into some order, those of the second one are equal to
those of the first one, one by one. -/
def Match (entries others : Entries) : Prop :=
  ∃ ordered, List.Forall₂ PairEqual entries ordered ∧ ordered.Perm others

variable {u v w : Value} {entries others third : Entries}

/-- Distinct keys stay distinct. -/
theorem Match.nodup_keys (h : Match entries others) (hkeys : (OrderedMap.keys entries).Nodup) :
    (OrderedMap.keys others).Nodup := by
  obtain ⟨ordered, hordered, hperm⟩ := h
  rw [keys_eq_of_forall₂ hordered] at hkeys
  exact (hperm.map Prod.fst).nodup_iff.1 hkeys

/-- Every pair of the second hash is equal to one of the first. -/
theorem Match.exists_mem (h : Match entries others) {other : HashKey × (Value × Value)}
    (hmem : other ∈ others) : ∃ entry ∈ entries, PairEqual entry other := by
  obtain ⟨ordered, hordered, hperm⟩ := h
  exact exists_mem_of_forall₂ hordered (hperm.mem_iff.2 hmem)

theorem Match.symm (h : Match entries others)
    (hsymm : ∀ entry ∈ entries, ∀ other, PairEqual entry other → PairEqual other entry) :
    Match others entries := by
  obtain ⟨ordered, hordered, hperm⟩ := h
  have hflip := (forall₂_imp_of_mem hordered hsymm).flip
  exact List.perm_comp_forall₂ hperm.symm hflip

theorem Match.trans (h : Match entries others) (h' : Match others third)
    (htrans : ∀ entry ∈ entries, ∀ other last,
      PairEqual entry other → PairEqual other last → PairEqual entry last) :
    Match entries third := by
  obtain ⟨ordered, hordered, hperm⟩ := h
  obtain ⟨ordered', hordered', hperm'⟩ := h'
  -- The order of the last pairs is that of the pairs between, and these are put in order first.
  obtain ⟨both, hboth, hperm''⟩ := List.perm_comp_forall₂ hperm hordered'
  exact ⟨both, forall₂_trans_of_mem hordered hboth htrans, hperm''.trans hperm'⟩

/-! ### What is equal to a value -/

theorem equalAll_iff {elements others : List Value} :
    equalAll elements others = true ↔
      List.Forall₂ (fun v w => v.equal w = true) elements others := by
  induction elements generalizing others with
  | nil => cases others <;> simp [equalAll]
  | cons v elements ih =>
    cases others with
    | nil => simp [equalAll]
    | cons w others => rw [equalAll, Bool.and_eq_true, ih, List.forall₂_cons]

theorem equalEntries_iff :
    equalEntries entries others = true ↔
      ∀ entry ∈ entries, ∃ pair, OrderedMap.find? entry.1 others = some pair ∧
        PairEqual entry (entry.1, pair) := by
  induction entries with
  | nil => simp [equalEntries]
  | cons entry entries ih =>
    rw [equalEntries, Bool.and_eq_true, ih, List.forall_mem_cons]
    refine and_congr_left fun _ => ?_
    cases hfound : OrderedMap.find? entry.1 others with
    | none => simp
    | some pair =>
      simp only [Bool.and_eq_true, Option.some.injEq, exists_eq_left']
      exact ⟨fun h => ⟨rfl, h.1, h.2⟩, fun h => ⟨h.key, h.item⟩⟩

/-- Where keys are distinct, pairs match if there are as many of them, and each one of the first
hash is found in the second. -/
theorem match_iff (hkeys : (OrderedMap.keys entries).Nodup) :
    Match entries others ↔
      entries.length = others.length ∧ equalEntries entries others = true := by
  rw [equalEntries_iff]
  constructor
  · intro h
    have hothers := h.nodup_keys hkeys
    obtain ⟨ordered, hordered, hperm⟩ := h
    refine ⟨hordered.length_eq.trans hperm.length_eq, fun entry hentry => ?_⟩
    obtain ⟨other, hother, hequal⟩ := exists_mem_of_forall₂ hordered.flip hentry
    refine ⟨other.2, ?_, rfl, hequal.key, hequal.item⟩
    rw [hequal.slot]
    exact OrderedMap.find?_of_mem hothers (hperm.mem_iff.1 hother)
  · rintro ⟨hlength, hfound⟩
    obtain ⟨ordered, hordered, hmem⟩ := exists_forall₂ (p := (· ∈ others)) fun entry hentry => by
      obtain ⟨pair, hpair, hequal⟩ := hfound entry hentry
      exact ⟨_, OrderedMap.mem_of_find? hpair, hequal⟩
    -- As many different pairs of the second hash as it has are all of them.
    rw [keys_eq_of_forall₂ hordered] at hkeys
    refine ⟨ordered, hordered, ?_⟩
    have hnodup : ordered.Nodup := List.Nodup.of_map Prod.fst hkeys
    exact (List.subperm_of_subset hnodup hmem).perm_of_length_le
      (Nat.le_of_eq (hlength.symm.trans hordered.length_eq))

theorem equal_array_iff {id : ObjectId} {elements : List Value} :
    (array id elements).equal w = true ↔ ∃ id' elements', w = array id' elements' ∧
      List.Forall₂ (fun v w => v.equal w = true) elements elements' := by
  constructor
  · intro h
    cases w with
    | array id' elements' => exact ⟨id', elements', rfl, equalAll_iff.1 h⟩
    | _ => cases h
  · rintro ⟨id', elements', rfl, h⟩
    exact equalAll_iff.2 h

theorem equal_hash_iff {id : ObjectId} (hkeys : (OrderedMap.keys entries).Nodup) :
    (hash id entries).equal w = true ↔
      ∃ id' others, w = hash id' others ∧ Match entries others := by
  constructor
  · intro h
    cases w with
    | hash id' others =>
      rw [equal, Bool.and_eq_true, beq_iff_eq] at h
      exact ⟨id', others, rfl, (match_iff hkeys).2 h⟩
    | _ => cases h
  · rintro ⟨id', others, rfl, h⟩
    rw [equal, Bool.and_eq_true, beq_iff_eq]
    exact (match_iff hkeys).1 h

theorem equal_returned_iff :
    (returned v).equal w = true ↔ ∃ v', w = returned v' ∧ v.equal v' = true := by
  constructor
  · intro h
    cases w with
    | returned v' => exact ⟨v', rfl, h⟩
    | _ => cases h
  · rintro ⟨v', rfl, h⟩
    exact h

/-- A value without others inside is equal to itself, up to one change that equality does not
see. -/
theorem IsFlat.equal_iff (hv : v.IsFlat) : v.equal w = true ↔ v = w ∨ Recast v w := by
  constructor
  · intro h
    cases v with
    | array | hash | returned => cases hv
    | function id parameters body scope =>
      cases w with
      | function id' parameters' body' scope' =>
        obtain rfl : id = id' := beq_iff_eq.1 h
        exact .inr (.function _ _ _ _ _ _ _)
      | _ => cases h
    | error e =>
      cases w with
      | error e' => exact .inr (.error (beq_iff_eq.1 h))
      | _ => cases h
    | _ => cases w <;> simp_all [equal]
  · rintro (rfl | h)
    · cases v <;> simp_all [equal, IsFlat]
    · cases h with
      | function | error => simp_all [equal]
      | _ => cases hv

theorem IsFlat.of_equal (hv : v.IsFlat) (h : v.equal w = true) : w.IsFlat := by
  rcases hv.equal_iff.1 h with rfl | hrecast
  · exact hv
  · cases hrecast with
    | function | error => trivial
    | _ => cases hv

/-! ### The laws of an equivalence -/

/-- What is equal to a value keeps distinct keys if the value does. -/
theorem IsKeyed.of_equal (hv : v.IsKeyed) : ∀ {w : Value}, v.equal w = true → w.IsKeyed := by
  -- What is equal to an array or a hash is one too, so the parts of the left value are enough.
  induction hv with
  | flat hflat => exact fun h => .flat (hflat.of_equal h)
  | array _ ih =>
    intro w h
    obtain ⟨id', elements', rfl, helements⟩ := equal_array_iff.1 h
    refine .array fun w hw => ?_
    obtain ⟨v, hv, hequal⟩ := exists_mem_of_forall₂ helements hw
    exact ih v hv hequal
  | hash distinct _ _ ihkeys ihitems =>
    intro w h
    obtain ⟨id', others, rfl, hmatch⟩ := (equal_hash_iff distinct).1 h
    refine .hash (hmatch.nodup_keys distinct) (fun other hother => ?_) fun other hother => ?_
    · obtain ⟨entry, hentry, hequal⟩ := hmatch.exists_mem hother
      exact ihkeys entry hentry hequal.key
    · obtain ⟨entry, hentry, hequal⟩ := hmatch.exists_mem hother
      exact ihitems entry hentry hequal.item
  | returned _ ih =>
    intro w h
    obtain ⟨v', rfl, hequal⟩ := equal_returned_iff.1 h
    exact .returned (ih hequal)

/-- **A value is equal to itself.** -/
theorem equal_refl (hv : v.IsKeyed) : v.equal v = true := by
  induction hv with
  | flat hflat => exact hflat.equal_iff.2 (.inl rfl)
  | array _ ih => exact equal_array_iff.2 ⟨_, _, rfl, List.forall₂_same.2 ih⟩
  | hash distinct _ _ ihkeys ihitems =>
    refine (equal_hash_iff distinct).2 ⟨_, _, rfl, _, List.forall₂_same.2 ?_, .refl _⟩
    exact fun entry hentry => ⟨rfl, ihkeys entry hentry, ihitems entry hentry⟩
  | returned _ ih => exact equal_returned_iff.2 ⟨_, rfl, ih⟩

theorem pairEqual_refl {entry : HashKey × (Value × Value)}
    (h : entry.2.1.IsKeyed ∧ entry.2.2.IsKeyed) : PairEqual entry entry :=
  ⟨rfl, equal_refl h.1, equal_refl h.2⟩

/-- **Equality goes both ways.** -/
theorem equal_symm (hv : v.IsKeyed) : ∀ {w : Value}, v.equal w = true → w.equal v = true := by
  induction hv with
  | flat hflat =>
    intro w h
    refine (hflat.of_equal h).equal_iff.2 ?_
    exact (hflat.equal_iff.1 h).imp Eq.symm Recast.symm
  | array _ ih =>
    intro w h
    obtain ⟨id', elements', rfl, helements⟩ := equal_array_iff.1 h
    have hflip := (forall₂_imp_of_mem helements fun v hv _ => ih v hv).flip
    exact equal_array_iff.2 ⟨_, _, rfl, hflip⟩
  | hash distinct _ _ ihkeys ihitems =>
    intro w h
    obtain ⟨id', others, rfl, hmatch⟩ := (equal_hash_iff distinct).1 h
    refine (equal_hash_iff (hmatch.nodup_keys distinct)).2 ⟨_, _, rfl, hmatch.symm ?_⟩
    exact fun entry hentry other hequal =>
      ⟨hequal.slot.symm, ihkeys entry hentry hequal.key, ihitems entry hentry hequal.item⟩
  | returned _ ih =>
    intro w h
    obtain ⟨v', rfl, hequal⟩ := equal_returned_iff.1 h
    exact equal_returned_iff.2 ⟨_, rfl, ih hequal⟩

theorem IsFlat.equal_trans (hu : u.IsFlat) (huv : u.equal v = true) (hvw : v.equal w = true) :
    u.equal w = true := by
  rcases (hu.of_equal huv).equal_iff.1 hvw with rfl | hvw
  · exact huv
  · rcases hu.equal_iff.1 huv with rfl | huv
    · exact hu.equal_iff.2 (.inr hvw)
    · refine hu.equal_iff.2 (.inr ?_)
      cases huv with
      | function =>
        cases hvw
        exact .function _ _ _ _ _ _ _
      | error h =>
        cases hvw with
        | error h' => exact .error (h.trans h')
      | _ => cases hu

/-- **Equality is transitive.** -/
theorem equal_trans (hu : u.IsKeyed) :
    ∀ {v w : Value}, u.equal v = true → v.equal w = true → u.equal w = true := by
  induction hu with
  | flat hflat => exact hflat.equal_trans
  | array _ ih =>
    intro v w huv hvw
    obtain ⟨_, elements', rfl, hfirst⟩ := equal_array_iff.1 huv
    obtain ⟨_, elements'', rfl, hsecond⟩ := equal_array_iff.1 hvw
    have hboth := forall₂_trans_of_mem hfirst hsecond fun u hu _ _ => ih u hu
    exact equal_array_iff.2 ⟨_, _, rfl, hboth⟩
  | hash distinct _ _ ihkeys ihitems =>
    intro v w huv hvw
    obtain ⟨_, others, rfl, hfirst⟩ := (equal_hash_iff distinct).1 huv
    obtain ⟨_, third, rfl, hsecond⟩ := (equal_hash_iff (hfirst.nodup_keys distinct)).1 hvw
    refine (equal_hash_iff distinct).2 ⟨_, _, rfl, hfirst.trans hsecond ?_⟩
    exact fun entry hentry other last h h' =>
      ⟨h.slot.trans h'.slot, ihkeys entry hentry h.key h'.key, ihitems entry hentry h.item h'.item⟩
  | returned _ ih =>
    intro v w huv hvw
    obtain ⟨v', rfl, hfirst⟩ := equal_returned_iff.1 huv
    obtain ⟨w', rfl, hsecond⟩ := equal_returned_iff.1 hvw
    exact equal_returned_iff.2 ⟨_, rfl, ih hfirst hsecond⟩

/-! ### Equals in place of equals -/

/-- **An element may be replaced** by an equal one. -/
theorem equal_replace_element {id : ObjectId} {before after : List Value} (id' : ObjectId)
    (h : (array id (before ++ v :: after)).IsKeyed) (hvw : v.equal w = true) :
    (array id (before ++ v :: after)).equal (array id' (before ++ w :: after)) = true := by
  obtain ⟨hbefore, hafter⟩ := List.forall_mem_append.1 (IsKeyed.array_iff.1 h)
  refine equal_array_iff.2 ⟨_, _, rfl, forall₂_replace ?_ hvw ?_⟩
  · exact fun v hv => equal_refl (hbefore v hv)
  · exact fun v hv => equal_refl (hafter v (List.mem_cons_of_mem _ hv))

/-- **A pair may be replaced** by an equal one, in the same slot. -/
theorem equal_replace_pair {id : ObjectId} {before after : Entries}
    {entry other : HashKey × (Value × Value)} (id' : ObjectId)
    (h : (hash id (before ++ entry :: after)).IsKeyed) (hequal : PairEqual entry other) :
    (hash id (before ++ entry :: after)).equal (hash id' (before ++ other :: after)) = true := by
  obtain ⟨hdistinct, hpairs⟩ := IsKeyed.hash_iff.1 h
  obtain ⟨hbefore, hafter⟩ := List.forall_mem_append.1 hpairs
  refine (equal_hash_iff hdistinct).2 ⟨_, _, rfl, _, forall₂_replace ?_ hequal ?_, .refl _⟩
  · exact fun entry hmem => pairEqual_refl (hbefore entry hmem)
  · exact fun entry hmem => pairEqual_refl (hafter entry (List.mem_cons_of_mem _ hmem))

/-! ### What equality sees -/

/-- A change that equality does not see. -/
theorem equal_of_recast (hv : v.IsKeyed) (h : Recast v w) : v.equal w = true := by
  induction h with
  | array id id' elements =>
    have helements := fun v hmem => equal_refl (IsKeyed.array_iff.1 hv v hmem)
    exact equal_array_iff.2 ⟨_, _, rfl, List.forall₂_same.2 helements⟩
  | hash id id' horder =>
    obtain ⟨hdistinct, hpairs⟩ := IsKeyed.hash_iff.1 hv
    have hequal := fun entry hmem => pairEqual_refl (hpairs entry hmem)
    exact (equal_hash_iff hdistinct).2 ⟨_, _, rfl, _, List.forall₂_same.2 hequal, horder⟩
  | function id parameters parameters' body body' scope scope' =>
    exact (IsFlat.equal_iff (by trivial)).2 (.inr (.function _ _ _ _ _ _ _))
  | error h => exact (IsFlat.equal_iff (by trivial)).2 (.inr (.error h))
  | element id before after _ ih =>
    have hkeyed := IsKeyed.array_iff.1 hv _ List.mem_append_cons_self
    exact equal_replace_element id hv (ih hkeyed)
  | key id before slot item after _ ih =>
    obtain ⟨hkey, hitem⟩ := (IsKeyed.hash_iff.1 hv).2 _ List.mem_append_cons_self
    exact equal_replace_pair id hv ⟨rfl, ih hkey, equal_refl hitem⟩
  | item id before slot key after _ ih =>
    obtain ⟨hkey, hitem⟩ := (IsKeyed.hash_iff.1 hv).2 _ List.mem_append_cons_self
    exact equal_replace_pair id hv ⟨rfl, equal_refl hkey, ih hitem⟩
  | returned _ ih => exact equal_returned_iff.2 ⟨_, rfl, ih (IsKeyed.returned_iff.1 hv)⟩

/-- Many changes that equality does not see. -/
theorem equal_of_recasts (hv : v.IsKeyed) (h : Recasts v w) : v.equal w = true := by
  induction h with
  | refl => exact equal_refl hv
  | tail _ hlast ih => exact equal_trans hv ih (equal_of_recast (hv.of_equal ih) hlast)

/-- **Equality sees everything else**: from a value to an equal one it takes only changes that it
does not see. -/
theorem recasts_of_equal (hv : v.IsKeyed) : ∀ {w : Value}, v.equal w = true → Recasts v w := by
  induction hv with
  | flat hflat =>
    intro w h
    rcases hflat.equal_iff.1 h with rfl | hrecast
    · exact .refl
    · exact .single hrecast
  | array _ ih =>
    intro w h
    obtain ⟨id', elements', rfl, hequal⟩ := equal_array_iff.1 h
    exact Recasts.elements _ _ (forall₂_imp_of_mem hequal fun v hv _ => ih v hv)
  | hash distinct _ _ ihkeys ihitems =>
    intro w h
    obtain ⟨id', others, rfl, ordered, hequal, hperm⟩ := (equal_hash_iff distinct).1 h
    refine Recasts.pairs _ _ (forall₂_imp_of_mem hequal ?_) hperm
    exact fun entry hentry _ h =>
      ⟨h.slot, ihkeys entry hentry h.key, ihitems entry hentry h.item⟩
  | returned _ ih =>
    intro w h
    obtain ⟨v', rfl, hequal⟩ := equal_returned_iff.1 h
    exact Recasts.within (fun _ _ => .returned) (ih hequal)

/-- **What equality does not see** makes no difference, on either side. -/
theorem equal_congr (hv : v.IsKeyed) (hw : w.IsKeyed) {v' w' : Value} (hvv' : Recasts v v')
    (hww' : Recasts w w') : v'.equal w' = v.equal w := by
  have hleft := equal_of_recasts hv hvv'
  have hright := equal_of_recasts hw hww'
  refine Bool.eq_iff_iff.2 ⟨fun h => ?_, fun h => ?_⟩
  · exact equal_trans hv (equal_trans hv hleft h) (equal_symm hw hright)
  · have hv' := hv.of_equal hleft
    exact equal_trans hv' (equal_trans hv' (equal_symm hv hleft) h) hright

/-! ### Hash keys -/

theorem kind_eq_of_equal (h : v.equal w = true) : v.kind = w.kind := by
  cases v <;> cases w <;> simp_all [equal, kind]

/-- **Equal values have the same hash key**, if they have one. -/
theorem hashKey?_eq_of_equal (h : v.equal w = true) : v.hashKey? = w.hashKey? := by
  cases v <;> cases w <;> simp_all [equal, hashKey?]

/-! ### The laws of equality -/

/-- **Equality is an equivalence that agrees with hash keys.**  It is reflexive, symmetric and
transitive on the values whose hashes keep distinct keys.  Two such values are equal if, and only
if, one of them is the other one after some changes, at any depth: the pairs of a hash stand in
another order, an error with the same text occurred somewhere else, or an array or a hash is
another object; functions and built-in functions stay the same ones.  So no such change makes a
difference to whether two values are equal.  Equal values are of the same type and have the same
hash key, if they have one.  An array stays equal if an element is replaced by an equal one, and a
hash does if an item is. -/
theorem equality_laws :
    (Equivalence fun v w : KeyedValue => v.1.equal w.1 = true) ∧
    (∀ (v : KeyedValue) (w : Value), v.1.equal w = true ↔ Recasts v.1 w) ∧
    (∀ (v w : KeyedValue) (v' w' : Value), Recasts v.1 v' → Recasts w.1 w' →
      v'.equal w' = v.1.equal w.1) ∧
    (∀ v w : Value, v.equal w = true → v.kind = w.kind ∧ v.hashKey? = w.hashKey?) ∧
    (∀ (id id' : ObjectId) (before after : List Value) (v w : Value),
      (array id (before ++ v :: after)).IsKeyed → v.equal w = true →
        (array id (before ++ v :: after)).equal (array id' (before ++ w :: after)) = true) ∧
    ∀ (id id' : ObjectId) (before after : Entries) (slot : HashKey) (key v w : Value),
      (hash id (before ++ (slot, (key, v)) :: after)).IsKeyed → v.equal w = true →
        (hash id (before ++ (slot, (key, v)) :: after)).equal
          (hash id' (before ++ (slot, (key, w)) :: after)) = true := by
  refine ⟨⟨fun v => equal_refl v.2, fun {v _} => equal_symm v.2, fun {u _ _} => equal_trans u.2⟩,
    fun v w => ⟨recasts_of_equal v.2, equal_of_recasts v.2⟩, fun v w _ _ => equal_congr v.2 w.2,
    fun v w h => ⟨kind_eq_of_equal h, hashKey?_eq_of_equal h⟩,
    fun _ id' _ _ _ _ => equal_replace_element id', fun _ id' _ _ slot key v w h hvw => ?_⟩
  obtain ⟨hkey, -⟩ := (IsKeyed.hash_iff.1 h).2 _ List.mem_append_cons_self
  exact equal_replace_pair id' h ⟨rfl, equal_refl hkey, hvw⟩

/-- Two hashes of the same two pairs, the second one in the other order and with an error from
another line inside, are equal, also as elements of arrays and as items of hashes. -/
theorem equality_laws_reordered :
    let failed (line : Int) : Value :=
      .array 2 [.error { fault := .divisionByZero, location := some ⟨none, line⟩ }]
    let one (line : Int) : HashKey × (Value × Value) := (⟨.integer, 1⟩, (.integer 1, failed line))
    let two : HashKey × (Value × Value) := (⟨.boolean, 1⟩, (.boolean true, .null))
    let v := Value.hash 0 [one 1, two]
    let w := Value.hash 7 [two, one 5]
    let array (u : Value) := Value.array 1 ([.null] ++ u :: [])
    let store (u : Value) := Value.hash 3 ([] ++ (⟨.integer, 1⟩, (.integer 1, u)) :: [two])
    v.IsKeyed ∧ w.IsKeyed ∧ (array v).IsKeyed ∧ (store v).IsKeyed ∧ Recasts v w ∧
      v.equal w = true ∧ w.equal v = true ∧ w.equal w = v.equal w ∧ v.hashKey? = w.hashKey? ∧
      (array v).equal (array w) = true ∧ (store v).equal (store w) = true := by
  intro failed one two v w array store
  have hfailed (line : Int) : (failed line).IsKeyed :=
    .array (List.forall_mem_singleton.2 (.flat trivial))
  have htwo : two.2.1.IsKeyed ∧ two.2.2.IsKeyed := ⟨.flat trivial, .flat trivial⟩
  have hv : v.IsKeyed := IsKeyed.hash_iff.2 ⟨by decide, List.forall_mem_cons.2
    ⟨⟨.flat trivial, hfailed 1⟩, List.forall_mem_singleton.2 htwo⟩⟩
  have hw : w.IsKeyed := IsKeyed.hash_iff.2 ⟨by decide, List.forall_mem_cons.2
    ⟨htwo, List.forall_mem_singleton.2 ⟨.flat trivial, hfailed 5⟩⟩⟩
  have harray : (array v).IsKeyed :=
    .array (List.forall_mem_cons.2 ⟨.flat trivial, List.forall_mem_singleton.2 hv⟩)
  have hstore : (store v).IsKeyed := IsKeyed.hash_iff.2 ⟨by decide, List.forall_mem_cons.2
    ⟨⟨.flat trivial, hv⟩, List.forall_mem_singleton.2 htwo⟩⟩
  have hmoved : Recast v (.hash 0 [one 5, two]) := .item 0 [] _ _ _ (.element 2 [] [] (.error rfl))
  have hrecasts : Recasts v w := (Relation.ReflTransGen.single hmoved).tail (.hash 0 7 (.swap ..))
  obtain ⟨hequivalence, hsees, hcongr, hkeys, helement, hitem⟩ := equality_laws
  have hequal : v.equal w = true := (hsees ⟨v, hv⟩ w).2 hrecasts
  exact ⟨hv, hw, harray, hstore, hrecasts, hequal,
    hequivalence.symm (x := ⟨v, hv⟩) (y := ⟨w, hw⟩) hequal,
    hcongr ⟨v, hv⟩ ⟨w, hw⟩ w w hrecasts .refl, (hkeys v w hequal).2,
    helement 1 1 [.null] [] v w harray hequal, hitem 3 3 [] [two] _ _ v w hstore hequal⟩

end Value

end MonkeyLang
