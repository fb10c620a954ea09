import Mathlib.Logic.Function.Basic
import MonkeyLang.Scope

/-!
# Laws of scopes

What the operations on scopes do to the bindings of each scope, and a condition on all bindings.

## Main Definitions

* `Scopes.outer` — the number of the scope around a scope
* `Scopes.Holds` — a property of everything that is bound, in whatever scope

## Main Statements

* `Scopes.bindings_create`, `Scopes.bindings_bind`, `Scopes.find?_bind` — the bindings after an
  operation
* `Scopes.outer_create`, `Scopes.outer_bind` — what lies inside what after an operation
* `Scopes.bind_create_size` — a new scope may as well be made with its first bindings
* `Scopes.lookup_eq` — what a lookup finds
* `Scopes.Holds.create`, `Scopes.Holds.bind` — how the condition lasts
* `Scopes.Holds.lookup` — what is found fulfils it
-/

namespace MonkeyLang

namespace OrderedMap

variable {κ ι : Type} [DecidableEq κ] {key : κ} {item : ι} {m : OrderedMap κ ι}

/-- After an item is stored, every pair is that one or an old one. -/
theorem mem_insert {pair : κ × ι} (h : pair ∈ insert key item m) :
    pair = (key, item) ∨ pair ∈ m := by
  induction m with
  | nil => exact .inl (List.mem_singleton.1 h)
  | cons first rest ih =>
    obtain ⟨k, old⟩ := first
    unfold insert at h
    by_cases hk : k = key
    · rw [if_pos hk] at h
      rcases List.mem_cons.1 h with hpair | hrest
      · exact .inl hpair
      · exact .inr (List.mem_cons_of_mem _ hrest)
    · rw [if_neg hk] at h
      rcases List.mem_cons.1 h with hpair | hrest
      · exact .inr (hpair ▸ List.mem_cons_self)
      · exact (ih hrest).imp_right (List.mem_cons_of_mem _)

/-- What is found under a key is stored under it. -/
theorem mem_of_find? (h : find? key m = some item) : (key, item) ∈ m := by
  induction m with
  | nil => cases h
  | cons first rest ih =>
    obtain ⟨k, old⟩ := first
    unfold find? at h
    by_cases hk : k = key
    · rw [if_pos hk, Option.some.injEq] at h
      exact hk ▸ h ▸ List.mem_cons_self
    · rw [if_neg hk] at h
      exact List.mem_cons_of_mem _ (ih h)

/-- An item under a new key goes behind the others. -/
theorem insert_of_notMem (h : key ∉ keys m) (item : ι) :
    insert key item m = m ++ [(key, item)] := by
  induction m with
  | nil => rfl
  | cons first rest ih =>
    obtain ⟨k, old⟩ := first
    obtain ⟨hk, hrest⟩ := not_or.1 (mt List.mem_cons.2 h)
    rw [insert, if_neg (Ne.symm hk), ih hrest]
    rfl

/-- Where the keys are distinct, what is stored under a key is found under it. -/
theorem find?_of_mem (h : (keys m).Nodup) (hmem : (key, item) ∈ m) : find? key m = some item := by
  induction m with
  | nil => cases hmem
  | cons first rest ih =>
    obtain ⟨k, old⟩ := first
    obtain ⟨hk, hrest⟩ := List.nodup_cons.1 h
    rcases List.mem_cons.1 hmem with heq | hmem
    · cases heq
      rw [find?, if_pos rfl]
    · have hne : k ≠ key := fun heq => hk (List.mem_map.2 ⟨_, hmem, heq.symm⟩)
      rw [find?, if_neg hne]
      exact ih hrest hmem

variable {κ' ι' : Type} [DecidableEq κ'] {g : κ → κ'}

/-- What is found when keys and items are changed, each key into another one. -/
theorem find?_map (hg : Function.Injective g) (f : ι → ι') (key : κ) (m : OrderedMap κ ι) :
    find? (g key) (m.map (Prod.map g f)) = (find? key m).map f := by
  induction m with
  | nil => rfl
  | cons first rest ih =>
    obtain ⟨k, old⟩ := first
    by_cases hk : k = key
    · simp [find?, hk]
    · have hgk : g k ≠ g key := fun h => hk (hg h)
      simpa [find?, hk, hgk] using ih

/-- Changed keys and items are stored as the old ones are. -/
theorem insert_map (hg : Function.Injective g) (f : ι → ι') (key : κ) (item : ι)
    (m : OrderedMap κ ι) :
    insert (g key) (f item) (m.map (Prod.map g f)) = (insert key item m).map (Prod.map g f) := by
  induction m with
  | nil => rfl
  | cons first rest ih =>
    obtain ⟨k, old⟩ := first
    by_cases hk : k = key
    · simp [insert, hk]
    · have hgk : g k ≠ g key := fun h => hk (hg h)
      simpa [insert, hk, hgk] using ih

end OrderedMap

namespace Scopes

variable {ι : Type} {s : Scopes ι}

/-! ### Bindings after an operation -/

@[simp] theorem bindings_empty (id : Nat) : (empty : Scopes ι).bindings id = [] := by
  simp [bindings, empty]

/-- A new scope has the bindings that it was made with, and no other scope changes. -/
theorem bindings_create (s : Scopes ι) (outer : Option Nat) (first : OrderedMap String ι)
    (id : Nat) :
    (s.create outer first).bindings id = if id = s.size then first else s.bindings id := by
  unfold bindings create size
  rw [Array.getElem?_push]
  by_cases hid : id = s.all.size
  · simp [hid]
  · simp [hid]

/-- A binding is stored in one scope, if there is such a scope, and no other scope changes. -/
theorem bindings_bind (s : Scopes ι) (target : Nat) (name : String) (item : ι) (id : Nat) :
    (s.bind target name item).bindings id =
      if id = target ∧ target < s.size then (s.bindings id).insert name item
      else s.bindings id := by
  unfold bindings bind size
  rw [Array.getElem?_modify]
  by_cases hid : target = id
  · subst hid
    by_cases hsize : target < s.all.size
    · simp [hsize]
    · simp [hsize]
  · simp [hid, Ne.symm hid]

/-- What is found under a name after a binding. -/
theorem find?_bind (s : Scopes ι) (target : Nat) (name : String) (item : ι) (id : Nat)
    (other : String) :
    OrderedMap.find? other ((s.bind target name item).bindings id) =
      if id = target ∧ target < s.size ∧ other = name then some item
      else OrderedMap.find? other (s.bindings id) := by
  rw [bindings_bind]
  by_cases hbound : id = target ∧ target < s.size
  · rw [if_pos hbound]
    by_cases hname : other = name
    · subst hname
      rw [if_pos ⟨hbound.1, hbound.2, rfl⟩, OrderedMap.find?_insert_self]
    · rw [if_neg fun h => hname h.2.2, OrderedMap.find?_insert_of_ne hname]
  · rw [if_neg hbound, if_neg fun h => hbound ⟨h.1, h.2.1⟩]

/-- A binding in the newest scope could have been one of its first ones. -/
theorem bind_create_size (s : Scopes ι) (around : Option Nat) (first : OrderedMap String ι)
    (name : String) (item : ι) :
    (s.create around first).bind s.size name item = s.create around (first.insert name item) := by
  unfold create Scopes.bind size
  congr 1
  refine Array.ext_getElem? fun i => ?_
  rw [Array.getElem?_modify, Array.getElem?_push, Array.getElem?_push]
  by_cases hi : i = s.all.size
  · simp [hi]
  · simp [hi, Ne.symm hi]

/-- Nothing is bound in a scope that is not there. -/
theorem bindings_of_size_le {id : Nat} (h : s.size ≤ id) : s.bindings id = [] := by
  unfold bindings
  rw [Array.getElem?_eq_none h]

/-! ### Scopes after an operation -/

/-- The number of the scope around a scope. -/
def outer (s : Scopes ι) (id : Nat) : Option Nat :=
  s.all[id]?.bind Scope.outer

theorem size_create (s : Scopes ι) (around : Option Nat) (first : OrderedMap String ι) :
    (s.create around first).size = s.size + 1 := by
  simp [size, create]

theorem size_bind (s : Scopes ι) (target : Nat) (name : String) (item : ι) :
    (s.bind target name item).size = s.size := by
  simp [size, bind]

/-- A new scope lies where it was made, and every old one inside the same scope as before. -/
theorem outer_create_eq (s : Scopes ι) (around : Option Nat) (first : OrderedMap String ι)
    (id : Nat) : (s.create around first).outer id = if id = s.size then around else s.outer id := by
  unfold outer create size
  rw [Array.getElem?_push]
  split
  · rfl
  · rfl

theorem outer_create (s : Scopes ι) (around : Option Nat) (first : OrderedMap String ι) {id : Nat}
    (hid : id < s.size) : (s.create around first).outer id = s.outer id := by
  rw [outer_create_eq, if_neg (Nat.ne_of_lt hid)]

/-- A binding leaves every scope where it is. -/
theorem outer_bind (s : Scopes ι) (target : Nat) (name : String) (item : ι) (id : Nat) :
    (s.bind target name item).outer id = s.outer id := by
  unfold outer bind
  rw [Array.getElem?_modify]
  split
  · rw [Option.bind_map]
    rfl
  · rfl

/-- A scope that is not there lies nowhere. -/
theorem outer_of_size_le {id : Nat} (h : s.size ≤ id) : s.outer id = none := by
  unfold outer
  rw [Array.getElem?_eq_none h]
  rfl

/-! ### What is found is bound -/

/-- What is found within a budget is bound in some scope. -/
theorem exists_binding_of_lookupWithin {name : String} {item : ι} {budget id : Nat}
    (h : s.lookupWithin name budget id = some item) : ∃ owner, (name, item) ∈ s.bindings owner := by
  induction budget generalizing id with
  | zero => cases h
  | succ budget ih =>
    unfold lookupWithin at h
    cases hscope : s.all[id]? with
    | none => simp [hscope] at h
    | some scope =>
      cases hfound : OrderedMap.find? name scope.bindings with
      | some found =>
        -- The scope in hand binds the name, so the scopes around it do not matter.
        simp only [hscope, hfound, Option.some.injEq] at h
        refine ⟨id, ?_⟩
        unfold bindings
        rw [hscope, ← h]
        exact OrderedMap.mem_of_find? hfound
      | none =>
        cases houter : scope.outer with
        | none => simp [hscope, hfound, houter] at h
        | some outer =>
          simp only [hscope, hfound, houter] at h
          split at h
          · exact ih h
          · cases h

/-! ### Lookups -/

/-- A budget that allows for the number of the scope is as good as any other one. -/
theorem lookupWithin_eq_of_lt {name : String} {budget budget' id : Nat} (h : id < budget)
    (h' : id < budget') : s.lookupWithin name budget id = s.lookupWithin name budget' id := by
  induction budget generalizing budget' id with
  | zero => cases h
  | succ budget ih =>
    cases budget' with
    | zero => cases h'
    | succ budget' =>
      unfold lookupWithin
      split
      · rfl
      · split
        · rfl
        · split
          · rfl
          · split
            · exact ih (by omega) (by omega)
            · rfl

/-- **A lookup** finds the binding of the scope itself, or else what a lookup from the scope around
it finds, provided that this one is older. -/
theorem lookup_eq (s : Scopes ι) (id : Nat) (name : String) :
    s.lookup id name = (OrderedMap.find? name (s.bindings id)).or
      (((s.outer id).filter (· < id)).bind fun outer => s.lookup outer name) := by
  unfold lookup bindings outer
  rw [lookupWithin]
  cases hscope : s.all[id]? with
  | none => rfl
  | some scope =>
    cases hfound : OrderedMap.find? name scope.bindings with
    | some item => simp [hfound]
    | none =>
      cases houter : scope.outer with
      | none => simp [hfound, houter]
      | some outer =>
        by_cases hlt : outer < id
        · simp [hfound, houter, hlt, Option.filter,
            lookupWithin_eq_of_lt hlt (Nat.lt_succ_self outer)]
        · simp [hfound, houter, hlt, Option.filter]

/-! ### A condition on all bindings -/

/-- Everything that is bound has a property. -/
def Holds (property : ι → Prop) (s : Scopes ι) : Prop :=
  ∀ id, ∀ binding ∈ s.bindings id, property binding.2

namespace Holds

variable {property : ι → Prop}

theorem empty : (Scopes.empty : Scopes ι).Holds property := by
  intro id binding hmem
  rw [bindings_empty] at hmem
  cases hmem

theorem create (h : s.Holds property) (outer : Option Nat) {first : OrderedMap String ι}
    (hfirst : ∀ binding ∈ first, property binding.2) : (s.create outer first).Holds property := by
  intro id binding hmem
  rw [bindings_create] at hmem
  split at hmem
  · exact hfirst binding hmem
  · exact h id binding hmem

theorem bind (h : s.Holds property) (target : Nat) (name : String) {item : ι}
    (hitem : property item) : (s.bind target name item).Holds property := by
  intro id binding hmem
  rw [bindings_bind] at hmem
  split at hmem
  · rcases OrderedMap.mem_insert hmem with rfl | hold
    · exact hitem
    · exact h id binding hold
  · exact h id binding hmem

theorem lookup (h : s.Holds property) {id : Nat} {name : String} {item : ι}
    (hfound : s.lookup id name = some item) : property item := by
  obtain ⟨owner, hmem⟩ := exists_binding_of_lookupWithin hfound
  exact h owner _ hmem

end Holds

end Scopes

end MonkeyLang
