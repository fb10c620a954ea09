import MonkeyLang.Proofs.Depth

/-!
# What is set aside

An evaluation makes scopes and objects that no one else sees.  A machine with more of them is as
good as the old one.

## Main Definitions

* `Scopes.Kept` — scopes may have been added, and the old ones are what they were
* `Machine.SetsAside` — nothing else has changed than that there are more scopes and objects

## Main Statements

* `Scopes.Kept.lookup_eq` — what is seen from an old scope stays
* `Scopes.lookup_create` — what is seen from a new scope
* `Evaluation.keeps_invoke` — a call keeps all scopes
* `Machine.SetsAside.newScope`, `Machine.SetsAside.newObject` — what sets aside
-/

namespace MonkeyLang

/-! ### Scopes that are kept -/

namespace Scopes

variable {ι : Type} {s s' s'' : Scopes ι}

/-- From `s` to `s'`, scopes may have been added.  Every old one is still there, inside the same
other scope, and with the same bindings. -/
structure Kept (s s' : Scopes ι) : Prop where
  size_le : s.size ≤ s'.size
  outer_eq : ∀ id < s.size, s'.outer id = s.outer id
  bindings_eq : ∀ id < s.size, s'.bindings id = s.bindings id

namespace Kept

theorem refl (s : Scopes ι) : Kept s s where
  size_le := Nat.le_refl _
  outer_eq _ _ := rfl
  bindings_eq _ _ := rfl

theorem trans (h : Kept s s') (h' : Kept s' s'') : Kept s s'' where
  size_le := Nat.le_trans h.size_le h'.size_le
  outer_eq id hid := by
    rw [h'.outer_eq id (Nat.lt_of_lt_of_le hid h.size_le), h.outer_eq id hid]
  bindings_eq id hid := by
    rw [h'.bindings_eq id (Nat.lt_of_lt_of_le hid h.size_le), h.bindings_eq id hid]

/-- Where nothing is bound in an old scope, all of them are kept. -/
theorem of_confined (h : Confined s.size [] s s') : Kept s s' where
  size_le := h.size_le
  outer_eq := h.outer_eq
  bindings_eq id hid := h.bindings_eq id hid (Nat.ne_of_lt hid)

theorem create (h : Kept s s') (around : Option Nat) (first : OrderedMap String ι) :
    Kept s (s'.create around first) := by
  refine h.trans ?_
  constructor
  · rw [size_create]
    exact Nat.le_succ _
  · exact fun id hid => outer_create _ _ _ hid
  · intro id hid
    rw [bindings_create, if_neg (Nat.ne_of_lt hid)]

/-- A binding in a scope that was not there at first. -/
theorem bind (h : Kept s s') {target : Nat} (htarget : s.size ≤ target) (name : String)
    (item : ι) : Kept s (s'.bind target name item) where
  size_le := by
    rw [size_bind]
    exact h.size_le
  outer_eq id hid := by
    rw [outer_bind, h.outer_eq id hid]
  bindings_eq id hid := by
    have hne : id ≠ target := Nat.ne_of_lt (Nat.lt_of_lt_of_le hid htarget)
    rw [bindings_bind, if_neg fun hbound => hne hbound.1, h.bindings_eq id hid]

/-- **What is seen from an old scope stays.**  All scopes around it are older. -/
theorem lookup_eq (h : Kept s s') {id : Nat} (hid : id < s.size) (name : String) :
    s'.lookup id name = s.lookup id name := by
  induction id using Nat.strongRecOn with
  | ind id ih =>
    rw [Scopes.lookup_eq, Scopes.lookup_eq s, h.bindings_eq id hid, h.outer_eq id hid]
    cases s.outer id with
    | none => rfl
    | some around =>
      by_cases hlt : around < id
      · simp [Option.filter, hlt, ih around hlt (Nat.lt_trans hlt hid)]
      · simp [Option.filter, hlt]

end Kept

/-- What is seen from a new scope in which a name was bound. -/
theorem lookup_create_bind (s : Scopes ι) {around : Nat} (h : around < s.size)
    (first : OrderedMap String ι) (key : String) (item : ι) (name : String) :
    ((s.create (some around) first).bind s.size key item).lookup s.size name =
      (OrderedMap.find? name (OrderedMap.insert key item first)).or (s.lookup around name) := by
  have hkept : s.Kept ((s.create (some around) first).bind s.size key item) :=
    ((Kept.refl s).create _ _).bind (Nat.le_refl _) key item
  have hsize : s.size < (s.create (some around) first).size := by
    rw [size_create]
    exact Nat.lt_succ_self _
  rw [lookup_eq, bindings_bind, if_pos ⟨rfl, hsize⟩, bindings_create, if_pos rfl, outer_bind,
    outer_create_eq, if_pos rfl]
  simp [Option.filter, h, hkept.lookup_eq h]

/-- What is seen from a new scope: its own bindings, and then what is seen from around it. -/
theorem lookup_create (s : Scopes ι) {around : Nat} (h : around < s.size)
    (first : OrderedMap String ι) (name : String) :
    (s.create (some around) first).lookup s.size name =
      (OrderedMap.find? name first).or (s.lookup around name) := by
  have hkept : s.Kept (s.create (some around) first) := (Kept.refl s).create _ _
  rw [lookup_eq, bindings_create, if_pos rfl, outer_create_eq, if_pos rfl]
  simp [Option.filter, h, hkept.lookup_eq h]

end Scopes

namespace Evaluation

/-- **A call keeps all scopes**, whatever is called and however it ends. -/
theorem keeps_invoke (s : Scopes Value) (depth : Nat) (location : Option Location) (callee : Value)
    (arguments : List Value) :
    Eval.Keeps (fun m => s.Kept m.scopes) (fun _ => True) (fun _ => True)
      (invoke (evaluate depth) location callee arguments) := by
  intro m hm
  have hevaluate (scope : ScopeId) (e : Expr Token) :
      Eval.Confines scope e.letNames (evaluate depth scope e) := by
    rw [← evaluateUntil_never]
    exact confines_evaluateUntil _ depth scope e
  -- The scope in which a call takes place does not matter; take one that is not there.
  obtain ⟨houtcome, hconfined⟩ := confines_invoke hevaluate m.scopes.size location callee arguments
    m.scopes m (.refl _)
  exact ⟨houtcome, hm.trans (.of_confined hconfined)⟩

end Evaluation

/-! ### Machines -/

namespace Machine

variable {m m' m'' : Machine}

/-- **Something was set aside.**  There may be more scopes, and numbers may have been given to more
objects.  Nothing was written, no place was noted, and no old scope has changed. -/
structure SetsAside (m m' : Machine) : Prop where
  scopes : m.scopes.Kept m'.scopes
  nextObject_le : m.nextObject ≤ m'.nextObject
  output_eq : m'.output = m.output
  places_eq : m'.places = m.places

namespace SetsAside

theorem refl (m : Machine) : m.SetsAside m where
  scopes := .refl _
  nextObject_le := Nat.le_refl _
  output_eq := rfl
  places_eq := rfl

theorem trans (h : m.SetsAside m') (h' : m'.SetsAside m'') : m.SetsAside m'' where
  scopes := h.scopes.trans h'.scopes
  nextObject_le := Nat.le_trans h.nextObject_le h'.nextObject_le
  output_eq := h'.output_eq.trans h.output_eq
  places_eq := h'.places_eq.trans h.places_eq

/-- A new scope. -/
theorem newScope (h : m.SetsAside m') (around : Option ScopeId)
    (first : OrderedMap String Value) :
    m.SetsAside { m' with scopes := m'.scopes.create around first } where
  scopes := h.scopes.create around first
  nextObject_le := h.nextObject_le
  output_eq := h.output_eq
  places_eq := h.places_eq

/-- A new object. -/
theorem newObject (h : m.SetsAside m') :
    m.SetsAside { m' with nextObject := m'.nextObject + 1 } where
  scopes := h.scopes
  nextObject_le := Nat.le_succ_of_le h.nextObject_le
  output_eq := h.output_eq
  places_eq := h.places_eq

/-- A binding in a scope that was not there at first. -/
theorem bindName (h : m.SetsAside m') {target : ScopeId} (htarget : m.scopes.size ≤ target)
    (name : String) (v : Value) :
    m.SetsAside { m' with scopes := m'.scopes.bind target name v } where
  scopes := h.scopes.bind htarget name v
  nextObject_le := h.nextObject_le
  output_eq := h.output_eq
  places_eq := h.places_eq

end SetsAside

end Machine

end MonkeyLang
