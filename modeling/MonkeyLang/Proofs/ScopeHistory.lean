import Mathlib.Data.List.Induction
import MonkeyLang.Proofs.ScopeLaws

/-!
# The history of scopes

What a name is bound to, told from the history alone: which scope was made inside which, and what
was bound in each of them, and when.

## Main Definitions

* `History` — scopes are made and names bound, in any order and in any number of scopes
* `History.scopes` — the scopes that come of a history
* `History.outer`, `History.latest` — what the history itself says of a scope
* `History.Outward` — a scope, the scope around it, and so on to one that lies in none
* `History.Sees` — no scope nearer by hides a binding
* `Scopes.Resolves` — a lookup by its steps, however many they are

## Main Statements

* `History.lookup_scopes` — a lookup goes from the latest binding in the scope itself outward
* `History.Outward.lookup_eq`, `History.resolves_iff` — it ends, at the nearest binding
* `History.sees_of_lookup_bind_ne` — what a binding changes
* `History.resolution` — **the innermost scope decides, and in it the latest binding**
* `History.scopes_frame` — the scope of a call is made, and then its parameters are bound

## Design Notes

A history is indexed by the number of scopes that it made.  Hence a scope cannot be made inside one
that does not exist yet, and this is all that keeps the chains of scopes from being circular.
-/

namespace MonkeyLang

variable {ι : Type} {n : Nat}

/-- What was done to scopes, of which `n` were made so far.  A scope is made inside one that exists
or inside none, and a name is bound in one that exists. -/
inductive History (ι : Type) : Nat → Type where
  | start : History ι 0
  | create {n : Nat} (h : History ι n) (around : Option (Fin n)) : History ι (n + 1)
  | bind {n : Nat} (h : History ι n) (target : Fin n) (name : String) (item : ι) : History ι n

/-- A lookup by its steps: a scope that binds the name answers itself, and any other one leaves the
answer to the scope around it. -/
inductive Scopes.Resolves (s : Scopes ι) (name : String) : Nat → Option ι → Prop
  | bound {id : Nat} {item : ι} (hfound : OrderedMap.find? name (s.bindings id) = some item) :
      Resolves s name id (some item)
  | outward {id around : Nat} {result : Option ι}
      (hfound : OrderedMap.find? name (s.bindings id) = none) (houter : s.outer id = some around)
      (hmore : Resolves s name around result) : Resolves s name id result
  | unbound {id : Nat} (hfound : OrderedMap.find? name (s.bindings id) = none)
      (houter : s.outer id = none) : Resolves s name id none

namespace History

/-- The scopes that come of a history. -/
def scopes {n : Nat} : History ι n → Scopes ι
  | start => .empty
  | create h around => h.scopes.create (around.map Fin.val)
  | bind h target name item => h.scopes.bind target name item

/-- Inside which scope a scope was made. -/
def outer {n : Nat} : History ι n → Nat → Option Nat
  | start, _ => none
  | create (n := n) h around, id => if id = n then around.map Fin.val else h.outer id
  | bind h _ _ _, id => h.outer id

/-- What the name was bound to most recently in the scope itself, if it ever was. -/
def latest {n : Nat} : History ι n → Nat → String → Option ι
  | start, _, _ => none
  | create h _, id, name => h.latest id name
  | bind h target bound item, id, name =>
    if id = target ∧ name = bound then some item else h.latest id name

/-- A scope, the scope around it, and so on to one that lies in none. -/
inductive Outward (h : History ι n) : Nat → List Nat → Prop
  | last {id : Nat} (houter : h.outer id = none) : Outward h id [id]
  | next {id around : Nat} {ids : List Nat} (houter : h.outer id = some around)
      (hids : Outward h around ids) : Outward h id (id :: ids)

/-- From the scope `id` one gets outward to the scope `target`, and no scope on the way there ever
bound the name. -/
inductive Sees (h : History ι n) (name : String) (target : Nat) : Nat → Prop
  | here : Sees h name target target
  | outward {id around : Nat} (hlatest : h.latest id name = none)
      (houter : h.outer id = some around) (hmore : Sees h name target around) :
      Sees h name target id

/-! ### The scopes tell the history -/

theorem size_scopes (h : History ι n) : h.scopes.size = n := by
  induction h with
  | start => rfl
  | create h around ih => rw [scopes, Scopes.size_create, ih]
  | bind h target name item ih => rw [scopes, Scopes.size_bind, ih]

theorem outer_scopes (h : History ι n) (id : Nat) : h.scopes.outer id = h.outer id := by
  induction h with
  | start => rfl
  | create h around ih => rw [scopes, Scopes.outer_create_eq, size_scopes, ih, outer]
  | bind h target name item ih => rw [scopes, Scopes.outer_bind, ih, outer]

/-- Nothing was bound in a scope that was not made yet. -/
theorem latest_of_le (h : History ι n) {id : Nat} (hid : n ≤ id) (name : String) :
    h.latest id name = none := by
  induction h with
  | start => rfl
  | create h around ih => exact ih (by omega)
  | bind h target bound item ih =>
    rw [latest, if_neg fun heq => by omega]
    exact ih hid

/-- **The bindings of a scope** are the latest ones. -/
theorem find?_bindings_scopes (h : History ι n) (id : Nat) (name : String) :
    OrderedMap.find? name (h.scopes.bindings id) = h.latest id name := by
  induction h with
  | start => rfl
  | create h around ih =>
    rw [scopes, Scopes.bindings_create, size_scopes]
    split
    · next hid => rw [latest, h.latest_of_le (Nat.le_of_eq hid.symm), OrderedMap.find?_nil]
    · exact ih
  | bind h target bound item ih =>
    rw [scopes, Scopes.find?_bind, size_scopes, ih, latest]
    simp only [target.isLt, true_and]

/-- A scope lies inside an older one. -/
theorem lt_of_outer_eq (h : History ι n) {id around : Nat} (houter : h.outer id = some around) :
    around < id := by
  induction h with
  | start => cases houter
  | create h inside ih =>
    rw [outer] at houter
    split at houter
    · next hid =>
      obtain ⟨older, -, rfl⟩ := Option.map_eq_some_iff.1 houter
      exact hid ▸ older.isLt
    · exact ih houter
  | bind h target name item ih => exact ih houter

/-! ### Lookups -/

/-- **A lookup** finds the latest binding in the scope itself, or else what a lookup from the scope
around it finds. -/
theorem lookup_scopes (h : History ι n) (id : Nat) (name : String) :
    h.scopes.lookup id name =
      (h.latest id name).or ((h.outer id).bind fun around => h.scopes.lookup around name) := by
  rw [Scopes.lookup_eq, find?_bindings_scopes, outer_scopes]
  cases houter : h.outer id with
  | none => rfl
  | some around => rw [Option.filter_some_pos (by simpa using h.lt_of_outer_eq houter)]

/-- Going outward comes to an end. -/
theorem exists_outward (h : History ι n) (id : Nat) : ∃ ids, h.Outward id ids := by
  induction id using Nat.strongRecOn with
  | ind id ih =>
    cases houter : h.outer id with
    | none => exact ⟨[id], .last houter⟩
    | some around =>
      obtain ⟨ids, hids⟩ := ih around (h.lt_of_outer_eq houter)
      exact ⟨id :: ids, .next houter hids⟩

/-- **The nearest scope decides** that ever bound the name. -/
theorem Outward.lookup_eq {h : History ι n} {id : Nat} {ids : List Nat} (hids : h.Outward id ids)
    (name : String) :
    h.scopes.lookup id name = ids.findSome? fun nearest => h.latest nearest name := by
  induction hids with
  | last houter =>
    rw [lookup_scopes, houter, List.findSome?_singleton, Option.bind_none, Option.or_none]
  | next houter _ ih =>
    rw [lookup_scopes, houter, Option.bind_some, ih, List.findSome?_cons]
    cases h.latest _ name <;> rfl

/-- **The steps of a lookup** come to an end, and to one end only. -/
theorem resolves_iff (h : History ι n) {id : Nat} {name : String} {result : Option ι} :
    h.scopes.Resolves name id result ↔ h.scopes.lookup id name = result := by
  constructor
  · intro hresult
    induction hresult with
    | bound hfound =>
      rw [find?_bindings_scopes] at hfound
      rw [lookup_scopes, hfound, Option.some_or]
    | outward hfound houter _ ih =>
      rw [find?_bindings_scopes] at hfound
      rw [outer_scopes] at houter
      rw [lookup_scopes, hfound, houter, Option.none_or, Option.bind_some, ih]
    | unbound hfound houter =>
      rw [find?_bindings_scopes] at hfound
      rw [outer_scopes] at houter
      rw [lookup_scopes, hfound, houter, Option.none_or, Option.bind_none]
  · rintro rfl
    obtain ⟨ids, hids⟩ := h.exists_outward id
    -- The steps follow the scopes outward, up to the first one that binds the name.
    induction hids with
    | @last id houter =>
      rw [lookup_scopes, houter, Option.bind_none, Option.or_none]
      rw [← outer_scopes] at houter
      cases hlatest : h.latest id name with
      | some item => exact .bound (by rw [find?_bindings_scopes, hlatest])
      | none => exact .unbound (by rw [find?_bindings_scopes, hlatest]) houter
    | @next id around ids houter _ ih =>
      rw [lookup_scopes, houter, Option.bind_some]
      rw [← outer_scopes] at houter
      cases hlatest : h.latest id name with
      | some item => exact .bound (by rw [find?_bindings_scopes, hlatest])
      | none => exact .outward (by rw [find?_bindings_scopes, hlatest]) houter ih

/-! ### What a binding changes -/

variable {target : Fin n} {bound : String} {item : ι}

/-- Where nothing nearer by hides it, a binding is what a lookup finds. -/
theorem Sees.lookup_bind {h : History ι n} {id : Nat} (hsees : h.Sees bound target id) :
    (h.bind target bound item).scopes.lookup id bound = some item := by
  induction hsees with
  | here => rw [lookup_scopes, latest, if_pos ⟨rfl, rfl⟩, Option.some_or]
  | outward hlatest houter _ ih =>
    rw [lookup_scopes, latest, outer, hlatest, houter, Option.bind_some, ih]
    split <;> rfl

/-- **A lookup that a binding changes** is one of that name, from a scope that sees the binding. -/
theorem sees_of_lookup_bind_ne (h : History ι n) {id : Nat} {name : String}
    (hne : (h.bind target bound item).scopes.lookup id name ≠ h.scopes.lookup id name) :
    name = bound ∧ h.Sees bound target id := by
  obtain ⟨ids, hids⟩ := h.exists_outward id
  induction hids with
  | last houter =>
    rw [lookup_scopes, lookup_scopes, latest, outer, houter] at hne
    split at hne
    · next hhere => exact ⟨hhere.2, hhere.1 ▸ .here⟩
    · exact absurd rfl hne
  | @next id around ids houter _ ih =>
    rw [lookup_scopes, lookup_scopes, latest, outer, houter, Option.bind_some,
      Option.bind_some] at hne
    split at hne
    · next hhere => exact ⟨hhere.2, hhere.1 ▸ .here⟩
    · cases hlatest : h.latest id name with
      | some old =>
        rw [hlatest, Option.some_or, Option.some_or] at hne
        exact absurd rfl hne
      | none =>
        rw [hlatest, Option.none_or, Option.none_or] at hne
        obtain ⟨rfl, hsees⟩ := ih hne
        exact ⟨rfl, .outward hlatest houter hsees⟩

/-- **Names are resolved innermost first and latest first.**  Whatever scopes were made, one inside
the other, and whatever was bound in them, in any order: a lookup of a name from a scope ends, with
one answer.  Going outward from the scope one comes past finitely many scopes, and the answer is the
latest binding of the name in the first of them that ever bound it, or none if none of them did.  So
one more binding of a name is what a lookup of that name finds from every scope that sees it, and it
changes no other lookup. -/
theorem resolution (h : History ι n) (id : Fin n) (name : String) :
    (∀ result, h.scopes.Resolves name id result ↔ h.scopes.lookup id name = result) ∧
    (∃ ids, h.Outward id ids ∧
      h.scopes.lookup id name = ids.findSome? fun nearest => h.latest nearest name) ∧
    ∀ (target : Fin n) (bound : String) (item : ι),
      (h.Sees bound target id → (h.bind target bound item).scopes.lookup id bound = some item) ∧
      ((h.bind target bound item).scopes.lookup id name ≠ h.scopes.lookup id name →
        name = bound ∧ h.Sees bound target id) := by
  obtain ⟨ids, hids⟩ := h.exists_outward id
  exact ⟨fun _ => h.resolves_iff, ⟨ids, hids, hids.lookup_eq name⟩,
    fun _ _ _ => ⟨fun hsees => hsees.lookup_bind, h.sees_of_lookup_bind_ne⟩⟩

/-- A scope sees what is bound later in the one around it, but not what it binds itself. -/
example :
    let h : History Nat 2 := ((((History.start.create none).create (some 0)).bind 0 "x" 1).bind 0
      "y" 2).bind 1 "y" 3
    (h.scopes.lookup 1 "x", h.scopes.lookup 1 "y", h.scopes.lookup 0 "y") =
      (some 1, some 3, some 2) := by
  decide

/-! ### Calls -/

/-- A scope is made, and then one name after the other is bound in it. -/
def frame (h : History ι n) (around : Option (Fin n)) (bindings : List (String × ι)) :
    History ι (n + 1) :=
  bindings.foldl (fun h binding => h.bind (Fin.last n) binding.1 binding.2) (h.create around)

/-- **The scope of a call**, which is made with its bindings, is one in which they are made in turn,
if the names are different. -/
theorem scopes_frame (h : History ι n) (around : Option (Fin n)) {bindings : List (String × ι)}
    (hdistinct : (OrderedMap.keys bindings).Nodup) :
    (h.frame around bindings).scopes = h.scopes.create (around.map Fin.val) bindings := by
  induction bindings using List.reverseRecOn with
  | nil => rfl
  | append_singleton bindings binding ih =>
    rw [OrderedMap.keys, List.map_append, List.nodup_append] at hdistinct
    obtain ⟨hbindings, -, hnew⟩ := hdistinct
    have hnotMem : binding.1 ∉ OrderedMap.keys bindings := fun hmem =>
      hnew _ hmem _ (List.mem_singleton_self _) rfl
    have hframe : (h.frame around (bindings ++ [binding])).scopes =
        (h.frame around bindings).scopes.bind n binding.1 binding.2 := by
      rw [frame, List.foldl_append, List.foldl_cons, List.foldl_nil, scopes, Fin.val_last, frame]
    have hbind := h.scopes.bind_create_size (around.map Fin.val) bindings binding.1 binding.2
    rw [h.size_scopes] at hbind
    rw [hframe, ih hbindings, hbind, OrderedMap.insert_of_notMem hnotMem]

end History

end MonkeyLang
