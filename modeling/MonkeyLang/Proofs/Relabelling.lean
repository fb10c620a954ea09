import MonkeyLang.Machine
import MonkeyLang.Operator.Apply
import MonkeyLang.Proofs.Marks
import MonkeyLang.Proofs.Rendering
import MonkeyLang.Proofs.ScopeLaws

/-!
# Relabelled machines

Where a tree came from, which number an object got and how many scopes there were before are labels:
a program cannot tell them.  A relabelling changes them everywhere at once, in values, in scopes and
in whole machines.

## Main Definitions

* `Relabelling` — what becomes of places, object numbers and scope numbers
* `Relabelling.value` — a relabelled value
* `Relabelling.scopes` — relabelled scopes, with empty ones around them
* `Relabelling.machine` — a relabelled machine

## Main Statements

* `Relabelling.render_value` — a relabelled value has the same text
* `Relabelling.isSame_value` — and is the same as others if it was so before
* `Relabelling.apply_binary`, `Relabelling.at_value` — operators and the index commute with a
  relabelling
* `Relabelling.scopes_create`, `Relabelling.scopes_bind`, `Relabelling.lookup_scopes` — so do the
  operations on scopes
* `Relabelling.placeOf_machine`, `Relabelling.machine_notePlace` — and those on the places of errors

## Design Notes

Object numbers and scope numbers are moved by a constant, so that different ones stay different and
the next one is still the next one.

The empty scopes in front hold no name.  The one with the number zero lies around all scopes that
lay inside no other one: a lookup that went past the outermost scope finds nothing there either.
-/

namespace MonkeyLang

/-- **A relabelling.**  It keeps the places of tokens and errors or forgets them, and moves object
numbers and scope numbers. -/
structure Relabelling where
  keepsPlaces : Bool
  /-- The numbers of objects grow by this. -/
  objectShift : Nat
  /-- So many empty scopes stand in front of the others. -/
  scopeShift : Nat

namespace Relabelling

variable (t : Relabelling)

/-! ### Labels -/

/-- What becomes of a place. -/
def place (location : Option Location) : Option Location :=
  if t.keepsPlaces then location else none

/-- What becomes of a token, as a mark. -/
def token (tok : Token) : Token := if t.keepsPlaces then tok else ⟨.eof, none⟩

/-- What becomes of the number of an object. -/
def object (id : ObjectId) : ObjectId := id + t.objectShift

/-- What becomes of the number of a scope. -/
def scope (id : ScopeId) : ScopeId := id + t.scopeShift

/-- Different objects stay different. -/
theorem object_injective : Function.Injective t.object :=
  fun _ _ h => Nat.add_right_cancel h

@[simp] theorem object_inj {i j : ObjectId} : t.object i = t.object j ↔ i = j :=
  t.object_injective.eq_iff

theorem scope_injective : Function.Injective t.scope :=
  fun _ _ h => Nat.add_right_cancel h

@[simp] theorem place_none : t.place none = none := ite_self none

/-- The place that stands in for a missing one still does. -/
theorem place_or (a b : Option Location) : t.place (a.or b) = (t.place a).or (t.place b) := by
  unfold place
  split
  · rfl
  · rfl

@[simp] theorem location_token (tok : Token) : (t.token tok).location = t.place tok.location := by
  unfold token place
  split
  · rfl
  · rfl

/-! ### Values -/

/-- A relabelled error. -/
def error (e : RuntimeError) : RuntimeError :=
  { e with location := t.place e.location, object := e.object.map t.object }

mutual

/-- A relabelled value. -/
def value : Value → Value
  | .null => .null
  | .boolean b => .boolean b
  | .integer n => .integer n
  | .string s => .string s
  | .array id elements => .array (t.object id) (values elements)
  | .hash id entries => .hash (t.object id) (pairs entries)
  | .function id parameters body scope =>
    .function (t.object id) (parameters.map (Name.map t.token)) (body.map t.token) (t.scope scope)
  | .builtin b => .builtin b
  | .error e => .error (t.error e)
  | .returned v => .returned (value v)
termination_by structural v => v

/-- Relabelled values. -/
def values : List Value → List Value
  | [] => []
  | v :: vs => value v :: values vs
termination_by structural vs => vs

/-- The relabelled pairs of a hash. -/
def pairs : List (HashKey × (Value × Value)) → List (HashKey × (Value × Value))
  | [] => []
  | (slot, (key, item)) :: entries => (slot, (value key, value item)) :: pairs entries
termination_by structural entries => entries

end

theorem values_eq_map (vs : List Value) : t.values vs = vs.map t.value := by
  induction vs with
  | nil => rfl
  | cons v vs ih => rw [values, ih, List.map_cons]

theorem pairs_eq_map (entries : Entries) :
    t.pairs entries = entries.map (Prod.map id (Prod.map t.value t.value)) := by
  induction entries with
  | nil => rfl
  | cons entry entries ih => rw [pairs, ih, List.map_cons]; rfl

/-- Relabelling a hash commutes with storing a pair in it: slots are not relabelled. -/
theorem pairs_insert (slot : HashKey) (key item : Value) (stored : Entries) :
    t.pairs (OrderedMap.insert slot (key, item) stored) =
      OrderedMap.insert slot (t.value key, t.value item) (t.pairs stored) := by
  rw [pairs_eq_map, pairs_eq_map]
  exact (OrderedMap.insert_map Function.injective_id _ slot (key, item) stored).symm

/-- A slot holds the relabelled pair, if it held a pair. -/
theorem find?_pairs (slot : HashKey) (entries : Entries) :
    OrderedMap.find? slot (t.pairs entries) =
      (OrderedMap.find? slot entries).map (Prod.map t.value t.value) := by
  rw [pairs_eq_map]
  exact OrderedMap.find?_map Function.injective_id _ slot entries

@[simp] theorem kind_value (v : Value) : (t.value v).kind = v.kind := by
  cases v <;> rfl

@[simp] theorem isTruthy_value (v : Value) : (t.value v).isTruthy = v.isTruthy := by
  cases v <;> rfl

/-- Keys keep their slots, since no key contains a number of an object. -/
@[simp] theorem hashKey?_value (v : Value) : (t.value v).hashKey? = v.hashKey? := by
  cases v <;> rfl

@[simp] theorem message_error (e : RuntimeError) : (t.error e).message = e.message := rfl

@[simp] theorem value_getD_null (found : Option Value) :
    t.value (found.getD .null) = (found.map t.value).getD .null := by
  cases found <;> rfl

mutual

/-- **A relabelled value has the same text.** -/
theorem render_value : (v : Value) → (t.value v).render = v.render
  | .null | .boolean _ | .integer _ | .string _ | .builtin _ => rfl
  | .array id elements => by
    rw [value, Value.render, Value.render, renderAll_values elements]
  | .hash id entries => by
    rw [value, Value.render, Value.render, renderEntries_pairs entries]
  | .function id parameters body scope => by
    rw [value, Value.render, Value.render, renderParameters_map, body.render_map]
  | .error e => by
    rw [value, Value.render, Value.render, message_error]
  | .returned v => by
    rw [value, Value.render, Value.render, render_value v]

/-- So are the texts of the elements of an array. -/
theorem renderAll_values : (vs : List Value) → Value.renderAll (t.values vs) = Value.renderAll vs
  | [] => rfl
  | v :: vs => by
    rw [values, Value.renderAll, Value.renderAll, render_value v, renderAll_values vs]

/-- So are the texts of the pairs of a hash. -/
theorem renderEntries_pairs : (entries : List (HashKey × (Value × Value))) →
    Value.renderEntries (t.pairs entries) = Value.renderEntries entries
  | [] => rfl
  | (_, (key, item)) :: entries => by
    rw [pairs, Value.renderEntries, Value.renderEntries, render_value key, render_value item,
      renderEntries_pairs entries]

end

/-- **Relabelled values are the same** if they were so before. -/
@[simp] theorem isSame_value (a b : Value) : (t.value a).isSame (t.value b) = a.isSame b := by
  cases a with
  | error e =>
    cases b with
    | error e' =>
      have hobject : (e.object.map t.object == e'.object.map t.object) = (e.object == e'.object) :=
        Bool.eq_iff_iff.2 (by simp [(Option.map_injective t.object_injective).eq_iff])
      simp only [value, Value.isSame, error, Option.isSome_map, hobject]
    | _ => rfl
  | array | hash | function =>
    cases b <;> simp [value, Value.isSame, Bool.beq_eq_decide_eq]
  | _ => cases b <;> rfl

/-! ### Operators -/

/-- A relabelled result, if there is one. -/
abbrev result : Except Fault Value → Except Fault Value := Except.map t.value

/-- Unary operators do not see numbers. -/
theorem apply_unary (op : UnaryOp) (v : Value) : op.apply (t.value v) = t.result (op.apply v) := by
  cases op with
  | not => simp [UnaryOp.apply, Except.map, value]
  | negate => cases v <;> rfl

/-- What comes of integers has no numbers in it. -/
theorem result_applyIntegers (op : BinaryOp) (a b : Int64) :
    t.result (op.applyIntegers a b) = op.applyIntegers a b := by
  cases op with
  | divide =>
    simp only [BinaryOp.applyIntegers]
    split
    · rfl
    · rfl
  | _ => rfl

theorem result_applyStrings (op : BinaryOp) (a b : String) :
    t.result (op.applyStrings a b) = op.applyStrings a b := by
  cases op <;> rfl

/-- What comes of two objects is a truth value or a fault, without numbers. -/
theorem result_applyObjects (op : BinaryOp) (left right : Kind) (same : Bool) :
    t.result (op.applyObjects left right same) = op.applyObjects left right same := by
  unfold BinaryOp.applyObjects
  split
  · cases op <;> rfl
  · rfl

/-- Operands that are neither two integers nor two strings matter by their types and identity. -/
theorem apply_objects {op : BinaryOp} {left right : Value} {same : Bool}
    (hinteger : ¬(left.kind = .integer ∧ right.kind = .integer))
    (hstring : ¬(left.kind = .string ∧ right.kind = .string)) :
    op.apply left right same = op.applyObjects left.kind right.kind same := by
  unfold BinaryOp.apply
  split
  · exact absurd ⟨rfl, rfl⟩ hinteger
  · exact absurd ⟨rfl, rfl⟩ hstring
  · rfl

/-- **Operators commute with a relabelling.** -/
theorem apply_binary (op : BinaryOp) (left right : Value) :
    op.apply (t.value left) (t.value right) = t.result (op.apply left right) := by
  by_cases hinteger : left.kind = .integer ∧ right.kind = .integer
  · cases left <;> cases right <;> simp [Value.kind] at hinteger
    exact (t.result_applyIntegers op _ _).symm
  · by_cases hstring : left.kind = .string ∧ right.kind = .string
    · cases left <;> cases right <;> simp [Value.kind] at hstring
      exact (t.result_applyStrings op _ _).symm
    · rw [apply_objects hinteger hstring, apply_objects (by simpa using hinteger)
        (by simpa using hstring), kind_value, kind_value, isSame_value, result_applyObjects]

theorem elementAt_values (elements : List Value) (n : Int) :
    elementAt (t.values elements) n = t.value (elementAt elements n) := by
  unfold elementAt
  split
  · rw [values_eq_map, List.getElem?_map, value_getD_null]
  · rfl

/-- **So does the index.** -/
theorem at_value (store subscript : Value) :
    (t.value store).at (t.value subscript) = t.result (store.at subscript) := by
  cases store with
  | array id elements =>
    cases subscript with
    | integer n => simp [value, Value.at, elementAt_values, Except.map]
    | _ => rfl
  | hash id entries =>
    have hkey := t.hashKey?_value subscript
    simp only [value, Value.at, hkey, kind_value]
    cases subscript.hashKey? with
    | none => rfl
    | some slot => simp [find?_pairs, Except.map, Option.map_map, Function.comp_def]
  | _ => rfl

/-! ### Scopes -/

/-- The bindings of a relabelled scope. -/
def bindings (b : OrderedMap String Value) : OrderedMap String Value := b.map (Prod.map id t.value)

/-- What lies around a relabelled scope. -/
def outer (around : Option ScopeId) : Option ScopeId :=
  match around with
  | some id => some (t.scope id)
  | none => if t.scopeShift = 0 then none else some 0

/-- Relabelled scopes. -/
def scopes (s : Scopes Value) : Scopes Value :=
  ⟨Array.replicate t.scopeShift ⟨none, []⟩ ++
    s.all.map fun scope => ⟨t.outer scope.outer, t.bindings scope.bindings⟩⟩

/-- The next scope of the relabelled scopes is the relabelled next scope. -/
@[simp] theorem size_scopes (s : Scopes Value) : (t.scopes s).size = t.scope s.size := by
  simp [scopes, scope, Scopes.size, Nat.add_comm]

/-- Each scope is found under its new number, relabelled. -/
theorem getElem?_scopes (s : Scopes Value) (id : ScopeId) :
    (t.scopes s).all[t.scope id]? =
      s.all[id]?.map fun scope => ⟨t.outer scope.outer, t.bindings scope.bindings⟩ := by
  have hle : (Array.replicate t.scopeShift (⟨none, []⟩ : Scope Value)).size ≤ t.scope id := by
    rw [Array.size_replicate]
    exact Nat.le_add_left _ _
  rw [scopes, Array.getElem?_append_right hle, Array.size_replicate, scope, Nat.add_sub_cancel,
    Array.getElem?_map]

/-- A scope has the relabelled bindings under its new number. -/
theorem bindings_scopes (s : Scopes Value) (id : ScopeId) :
    (t.scopes s).bindings (t.scope id) = t.bindings (s.bindings id) := by
  unfold Scopes.bindings
  rw [getElem?_scopes]
  cases s.all[id]? <;> rfl

theorem find?_bindings (name : String) (b : OrderedMap String Value) :
    OrderedMap.find? name (t.bindings b) = (OrderedMap.find? name b).map t.value :=
  OrderedMap.find?_map Function.injective_id t.value name b

/-- The scopes in front are empty, and lie inside no other ones. -/
theorem getElem?_scopes_of_lt (s : Scopes Value) {id : ScopeId} (h : id < t.scopeShift) :
    (t.scopes s).all[id]? = some ⟨none, []⟩ := by
  simp [scopes, Array.getElem?_append, h]

/-- **Relabelling commutes with making a scope.** -/
theorem scopes_create (s : Scopes Value) (around : Option ScopeId)
    (first : OrderedMap String Value) :
    t.scopes (s.create around first) = (t.scopes s).create (t.outer around) (t.bindings first) := by
  simp [scopes, Scopes.create]

theorem bindings_insert (name : String) (v : Value) (b : OrderedMap String Value) :
    t.bindings (b.insert name v) = (t.bindings b).insert name (t.value v) :=
  (OrderedMap.insert_map Function.injective_id t.value name v b).symm

/-- **Relabelling commutes with binding a name.** -/
theorem scopes_bind (s : Scopes Value) (id : ScopeId) (name : String) (v : Value) :
    t.scopes (s.bind id name v) = (t.scopes s).bind (t.scope id) name (t.value v) := by
  refine congrArg Scopes.mk (Array.ext_getElem? fun i => ?_)
  show (t.scopes (s.bind id name v)).all[i]? = _
  rw [Array.getElem?_modify]
  rcases Nat.lt_or_ge i t.scopeShift with hfront | hbehind
  · -- A scope in front has no relabelled number.
    have hne : t.scope id ≠ i := Nat.ne_of_gt (Nat.lt_of_lt_of_le hfront (Nat.le_add_left _ _))
    rw [if_neg hne, getElem?_scopes_of_lt t _ hfront, getElem?_scopes_of_lt t _ hfront]
  · obtain ⟨j, rfl⟩ : ∃ j, i = t.scope j := ⟨i - t.scopeShift, (Nat.sub_add_cancel hbehind).symm⟩
    rw [getElem?_scopes, getElem?_scopes, Scopes.bind, Array.getElem?_modify]
    by_cases hid : id = j
    · rw [if_pos hid, if_pos (congrArg t.scope hid), Option.map_map, Option.map_map]
      simp only [Function.comp_def, bindings_insert]
    · rw [if_neg hid, if_neg (t.scope_injective.ne hid)]

/-- From a scope in front nothing is seen. -/
theorem lookup_scopes_of_lt (s : Scopes Value) {id : ScopeId} (h : id < t.scopeShift)
    (name : String) : (t.scopes s).lookup id name = none := by
  rw [Scopes.lookup_eq, Scopes.bindings, Scopes.outer, getElem?_scopes_of_lt t s h]
  rfl

/-- **A lookup** in relabelled scopes finds the relabelled value. -/
theorem lookup_scopes (s : Scopes Value) (id : ScopeId) (name : String) :
    (t.scopes s).lookup (t.scope id) name = (s.lookup id name).map t.value := by
  induction id using Nat.strongRecOn with
  | ind id ih =>
    rw [Scopes.lookup_eq, Scopes.lookup_eq s, bindings_scopes, find?_bindings, Option.map_or]
    congr 1
    unfold Scopes.outer
    rw [getElem?_scopes]
    cases s.all[id]? with
    | none => rfl
    | some scope =>
      cases houter : scope.outer with
      | none =>
        simp only [Option.map_some, Option.bind_some, houter, Relabelling.outer]
        split
        · rfl
        · next hshift =>
          -- Past the outermost scope stands the first one of those in front.
          have hpos := Nat.pos_of_ne_zero hshift
          simp [Option.filter, lookup_scopes_of_lt t s hpos]
      | some around =>
        by_cases hlt : around < id
        · have hlt' : t.scope around < t.scope id := Nat.add_lt_add_right hlt _
          simp [houter, Relabelling.outer, Option.filter, hlt, hlt', ih around hlt]
        · have hlt' : ¬t.scope around < t.scope id := fun h => hlt (Nat.lt_of_add_lt_add_right h)
          simp [houter, Relabelling.outer, Option.filter, hlt, hlt']

/-! ### Machines -/

/-- What becomes of the places noted for stored errors. -/
def places (noted : OrderedMap ObjectId Location) : OrderedMap ObjectId Location :=
  if t.keepsPlaces then noted.map (Prod.map t.object id) else []

/-- **A relabelled machine.** -/
def machine (m : Machine) : Machine where
  scopes := t.scopes m.scopes
  nextObject := t.object m.nextObject
  output := m.output
  places := t.places m.places

/-- A stored error has the relabelled place. -/
theorem placeOf_machine (m : Machine) (e : RuntimeError) :
    (t.machine m).placeOf (t.error e) = t.place (m.placeOf e) := by
  unfold Machine.placeOf
  rw [place_or]
  congr 1
  cases e with
  | mk fault location object =>
    cases object with
    | none => simp [error]
    | some n =>
      simp only [error, machine, places, place, Option.map_some, Option.bind_some]
      split
      · simpa using OrderedMap.find?_map t.object_injective id n m.places
      · rfl

/-- **Relabelling commutes with noting the place** of a stored error, which depends on there being
none yet. -/
theorem machine_notePlace (m : Machine) (e : RuntimeError) (location : Option Location) :
    t.machine (m.notePlace e location) =
      (t.machine m).notePlace (t.error e) (t.place location) := by
  cases hkeeps : t.keepsPlaces with
  | false =>
    -- Without places there is nothing to note, and nothing that was noted is left.
    have hplace : t.place location = none := by simp [place, hkeeps]
    rw [hplace, Machine.notePlace_none]
    unfold Machine.notePlace
    split
    · simp [machine, places, hkeeps]
    · rfl
  | true =>
    unfold Machine.notePlace
    rw [placeOf_machine]
    simp only [place, hkeeps, if_true]
    cases m.placeOf e with
    | some l => rfl
    | none =>
      cases hobject : e.object with
      | none => simp [error, hobject]
      | some n =>
        cases location with
        | none => simp [error, hobject]
        | some l =>
          simp only [error, hobject, machine, places, hkeeps, if_true, Option.map_some]
          congr 1
          exact (OrderedMap.insert_map t.object_injective id n l m.places).symm

end Relabelling

end MonkeyLang
