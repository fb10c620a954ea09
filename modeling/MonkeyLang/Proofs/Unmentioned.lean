import MonkeyLang.Proofs.Concatenation
import MonkeyLang.Proofs.EvalLaws
import MonkeyLang.Proofs.Reach

/-!
# Bindings that are not mentioned

What a name is bound to does not matter to a program in which the name does not stand, as long as it
stands in no function that the program can reach.

## Main Definitions

* `Eval.Mirrors` — in related machines, an evaluation ends in the same way and leaves related ones
* `Machine.SameBut` — two machines are the same, except for what one name is bound to
* `Machine.KeepsOut` — from some scopes, no function is reached in which the name stands
* `Eval.Ignores` — in such machines, an evaluation ignores what the name is bound to
* `Scopes.Unmentioned` — the name stands in no function that can be reached from a scope

## Main Statements

* `Eval.Mirrors.bind`, `Eval.Mirrors.takeReturned` — the rules for sequences, calls and programs
* `Machine.SameBut.lookup_eq` — other names are found alike
* `Evaluation.ignores_invoke` — a call ignores the name, if it does not stand in the function
* `Evaluation.ignores_step` — an expression without the name, if those inside it
* `runProgram_unmentioned` — **a program runs the same**, whatever the name is bound to

## Design Notes

The two runs are compared step by step.  They make the same objects and scopes in the same order, so
that their values are not merely alike but equal: functions carry the numbers of their scopes, and
the scopes with these numbers differ only in the name.

The relation also keeps track of the scopes that an evaluation may get to.  They are those that
could be reached at first, and all that are new: a new scope lies inside the scope of a function
that was at hand, and what is bound in it was at hand too.  This set of numbers is fixed before the
run.
-/

namespace MonkeyLang

variable {α β : Type}

/-! ### Evaluations in related machines -/

namespace Eval

/-- In related machines the evaluation ends in the same way.  Its value and its interrupt have the
given properties, and the machines that it leaves are related again. -/
def Mirrors (related : Machine → Machine → Prop) (value : α → Prop) (interrupt : Interrupt → Prop)
    (x : Eval α) : Prop :=
  ∀ m m', related m m' →
    (x m').1 = (x m).1 ∧ (x m).1.Satisfies value interrupt ∧ related (x m).2 (x m').2

namespace Mirrors

variable {related : Machine → Machine → Prop} {value : α → Prop} {other : β → Prop}
  {interrupt interrupt' : Interrupt → Prop} {x : Eval α} {location : Option Location}

/-! #### Sequences -/

theorem pure {a : α} (h : value a) : Mirrors related value interrupt (Pure.pure a : Eval α) :=
  fun _ _ hm => ⟨rfl, h, hm⟩

/-- **The rule for sequences.** -/
theorem bind {f : α → Eval β} (hx : Mirrors related value interrupt x)
    (hf : ∀ a, value a → Mirrors related other interrupt (f a)) :
    Mirrors related other interrupt (x >>= f) := by
  intro m m' hm
  obtain ⟨hsame, houtcome, hrelated⟩ := hx m m' hm
  rw [bind_apply, bind_apply]
  generalize x m = ending, x m' = ending' at hsame houtcome hrelated
  obtain ⟨outcome, left⟩ := ending
  obtain ⟨outcome', left'⟩ := ending'
  obtain rfl : outcome' = outcome := hsame
  cases outcome' with
  | value a => exact hf a houtcome left left' hrelated
  | interrupt i => exact ⟨rfl, houtcome, hrelated⟩
  | tooDeep => exact ⟨rfl, trivial, hrelated⟩

theorem ite {condition : Prop} [Decidable condition] {y : Eval α}
    (hx : condition → Mirrors related value interrupt x)
    (hy : ¬condition → Mirrors related value interrupt y) :
    Mirrors related value interrupt (if condition then x else y) := by
  split
  · next h => exact hx h
  · next h => exact hy h

/-! #### Endings -/

theorem interrupted {i : Interrupt} (h : interrupt i) :
    Mirrors related value interrupt (Eval.interrupt i : Eval α) :=
  fun _ _ hm => ⟨rfl, h, hm⟩

theorem tooDeep : Mirrors related value interrupt (Eval.tooDeep : Eval α) :=
  fun _ _ hm => ⟨rfl, trivial, hm⟩

theorem fault {f : Fault} (h : ∀ e, interrupt (.error e)) :
    Mirrors related value interrupt (Eval.fault location f : Eval α) :=
  interrupted (h _)

theorem orFault {r : Except Fault α} (hok : ∀ a, r = .ok a → value a)
    (herror : ∀ e, interrupt (.error e)) :
    Mirrors related value interrupt (Eval.orFault location r) := by
  cases r with
  | ok a => exact pure (hok a rfl)
  | error f => exact fault herror

/-- **The rule for calls and programs.** -/
theorem takeReturned {f : Value → α} (hx : Mirrors related value interrupt x)
    (hreturned : ∀ v, interrupt (.returned v) → value (f v))
    (herror : ∀ e, interrupt' (.error e)) :
    Mirrors related value interrupt' (Eval.takeReturned x f) := by
  intro m m' hm
  obtain ⟨hsame, houtcome, hrelated⟩ := hx m m' hm
  unfold Eval.takeReturned
  generalize x m = ending, x m' = ending' at hsame houtcome hrelated
  obtain ⟨outcome, left⟩ := ending
  obtain ⟨outcome', left'⟩ := ending'
  obtain rfl : outcome' = outcome := hsame
  cases outcome' with
  | value a => exact ⟨rfl, houtcome, hrelated⟩
  | interrupt i =>
    cases i with
    | error e => exact ⟨rfl, herror e, hrelated⟩
    | returned v => exact ⟨rfl, hreturned v houtcome, hrelated⟩
  | tooDeep => exact ⟨rfl, trivial, hrelated⟩

end Mirrors

end Eval

/-! ### Machines that differ in one name -/

/-- The two machines are the same, except that `x` may be bound to something else in any scope, or
bound in one of them only. -/
structure Machine.SameBut (x : String) (m m' : Machine) : Prop where
  nextObject_eq : m'.nextObject = m.nextObject
  output_eq : m'.output = m.output
  places_eq : m'.places = m.places
  size_eq : m'.scopes.size = m.scopes.size
  outer_eq : ∀ id, m'.scopes.outer id = m.scopes.outer id
  find?_eq : ∀ id, ∀ name ≠ x,
    OrderedMap.find? name (m'.scopes.bindings id) = OrderedMap.find? name (m.scopes.bindings id)

/-- What is asked of a function: `x` does not stand in it, and it was made in one of the scopes. -/
def AvoidsName (x : String) (near : ScopeId → Prop) : Value.FunctionProperty :=
  fun parameters body scope => x ∉ parameters.map Name.text ∧ x ∉ body.names ∧ near scope

/-- From the given scopes, which include all new ones, no function is reached in which `x` stands,
unless it is bound to `x` itself. -/
structure Machine.KeepsOut (x : String) (near : ScopeId → Prop) (m : Machine) : Prop where
  new_near : ∀ id, m.scopes.size ≤ id → near id
  outer_near : ∀ id around, near id → m.scopes.outer id = some around → near around
  bound : ∀ id, near id → ∀ name ≠ x, ∀ v,
    OrderedMap.find? name (m.scopes.bindings id) = some v → v.ForFunctions (AvoidsName x near)

/-- What is asked of a returned value on its way. -/
def Interrupt.ForFunctions (property : Value.FunctionProperty) : Interrupt → Prop
  | error _ => True
  | returned v => v.ForFunctions property

variable {x : String} {near : ScopeId → Prop} {m m' : Machine}

namespace Machine.SameBut

/-- **Other names are found alike.** -/
theorem lookup_eq (h : m.SameBut x m') {name : String} (hname : name ≠ x) (id : ScopeId) :
    m'.scopes.lookup id name = m.scopes.lookup id name := by
  -- The lookup goes on in an older scope.
  induction id using Nat.strong_induction_on with
  | _ id ih =>
    rw [Scopes.lookup_eq, Scopes.lookup_eq, h.outer_eq, h.find?_eq id name hname]
    congr 1
    cases houter : (m.scopes.outer id).filter (· < id) with
    | none => rfl
    | some around =>
      have holder : around < id := by simpa using (Option.filter_eq_some_iff.1 houter).2
      exact ih around holder

/-- Places are noted alike. -/
theorem notePlace (h : m.SameBut x m') (e : RuntimeError) (location : Option Location) :
    (m.notePlace e location).SameBut x (m'.notePlace e location) := by
  unfold Machine.notePlace Machine.placeOf
  rw [h.places_eq]
  split
  · exact { h with places_eq := rfl }
  · exact h

/-- A new scope has the same bindings in both machines. -/
theorem newScope (h : m.SameBut x m') (around : Option ScopeId)
    (first : OrderedMap String Value) :
    SameBut x { m with scopes := m.scopes.create around first }
      { m' with scopes := m'.scopes.create around first } where
  nextObject_eq := h.nextObject_eq
  output_eq := h.output_eq
  places_eq := h.places_eq
  size_eq := by
    show (m'.scopes.create around first).size = (m.scopes.create around first).size
    rw [Scopes.size_create, Scopes.size_create, h.size_eq]
  outer_eq id := by
    rw [Scopes.outer_create_eq, Scopes.outer_create_eq, h.size_eq, h.outer_eq]
  find?_eq id name hname := by
    rw [Scopes.bindings_create, Scopes.bindings_create, h.size_eq]
    split
    · rfl
    · exact h.find?_eq id name hname

theorem bindName (h : m.SameBut x m') (target : ScopeId) (bound : String) (v : Value) :
    SameBut x { m with scopes := m.scopes.bind target bound v }
      { m' with scopes := m'.scopes.bind target bound v } where
  nextObject_eq := h.nextObject_eq
  output_eq := h.output_eq
  places_eq := h.places_eq
  size_eq := by
    rw [Scopes.size_bind, Scopes.size_bind, h.size_eq]
  outer_eq id := by
    rw [Scopes.outer_bind, Scopes.outer_bind, h.outer_eq]
  find?_eq id name hname := by
    rw [Scopes.find?_bind, Scopes.find?_bind, h.size_eq, h.find?_eq id name hname]

/-- A binding of `x` makes the only difference. -/
theorem of_bind (m : Machine) (target : ScopeId) (v : Value) :
    m.SameBut x { m with scopes := m.scopes.bind target x v } where
  nextObject_eq := rfl
  output_eq := rfl
  places_eq := rfl
  size_eq := Scopes.size_bind _ _ _ _
  outer_eq := Scopes.outer_bind _ _ _ _
  find?_eq id name hname := by
    rw [Scopes.find?_bind, if_neg fun h => hname h.2.2]

end Machine.SameBut

namespace Machine.KeepsOut

theorem notePlace (h : m.KeepsOut x near) (e : RuntimeError) (location : Option Location) :
    (m.notePlace e location).KeepsOut x near := by
  unfold Machine.notePlace
  split
  · exact { h with }
  · exact h

/-- A new scope lies inside one of the scopes, and binds names to what is at hand. -/
theorem newScope (h : m.KeepsOut x near) {around : Option ScopeId}
    {first : OrderedMap String Value} (haround : ∀ id ∈ around, near id)
    (hfirst : ∀ binding ∈ first, binding.2.ForFunctions (AvoidsName x near)) :
    KeepsOut x near { m with scopes := m.scopes.create around first } where
  new_near id hid := by
    rw [Scopes.size_create] at hid
    exact h.new_near id (Nat.le_of_succ_le hid)
  outer_near id outer hid houter := by
    rw [Scopes.outer_create_eq] at houter
    split at houter
    · exact haround outer houter
    · exact h.outer_near id outer hid houter
  bound id hid name hname v hv := by
    rw [Scopes.bindings_create] at hv
    split at hv
    · exact hfirst _ (OrderedMap.mem_of_find? hv)
    · exact h.bound id hid name hname v hv

theorem bindName (h : m.KeepsOut x near) (target : ScopeId) (bound : String) {v : Value}
    (hv : v.ForFunctions (AvoidsName x near)) :
    KeepsOut x near { m with scopes := m.scopes.bind target bound v } where
  new_near id hid := by
    rw [Scopes.size_bind] at hid
    exact h.new_near id hid
  outer_near id outer hid houter := by
    rw [Scopes.outer_bind] at houter
    exact h.outer_near id outer hid houter
  bound id hid name hname w hw := by
    rw [Scopes.find?_bind] at hw
    split at hw
    · cases hw
      exact hv
    · exact h.bound id hid name hname w hw

/-- What is found under another name is at hand. -/
theorem lookup (h : m.KeepsOut x near) {name : String} (hname : name ≠ x) {id : ScopeId}
    (hid : near id) {v : Value} (hv : m.scopes.lookup id name = some v) :
    v.ForFunctions (AvoidsName x near) := by
  induction id using Nat.strong_induction_on with
  | _ id ih =>
    rw [Scopes.lookup_eq, Option.or_eq_some_iff] at hv
    rcases hv with hv | ⟨-, hv⟩
    · exact h.bound id hid name hname v hv
    · obtain ⟨around, haround, hv⟩ := Option.bind_eq_some_iff.1 hv
      obtain ⟨houter, holder⟩ := Option.filter_eq_some_iff.1 haround
      exact ih around (by simpa using holder) (h.outer_near id around hid houter) hv

end Machine.KeepsOut

/-! ### Effects -/

namespace Eval

/-- The evaluation ignores what `x` is bound to.  Its value is at hand, as far as the given property
says, and so is what it returns. -/
abbrev Ignores (x : String) (near : ScopeId → Prop) (value : α → Prop) (ev : Eval α) : Prop :=
  Mirrors (fun m m' => m.KeepsOut x near ∧ m.SameBut x m') value
    (Interrupt.ForFunctions (AvoidsName x near)) ev

theorem ignores_writeLine (text : String) : Ignores x near (fun _ => True) (writeLine text) := by
  rintro m m' ⟨hkept, hsame⟩
  have houtput : m'.output ++ (text ++ "\n") = m.output ++ (text ++ "\n") := by
    rw [hsame.output_eq]
  exact ⟨rfl, trivial, { hkept with }, { hsame with output_eq := houtput }⟩

theorem ignores_newObject : Ignores x near (fun _ => True) newObject := by
  rintro m m' ⟨hkept, hsame⟩
  refine ⟨?_, trivial, { hkept with }, { hsame with nextObject_eq := ?_ }⟩
  · exact congrArg Outcome.value hsame.nextObject_eq
  · exact congrArg (· + 1) hsame.nextObject_eq

theorem ignores_newArray {elements : List Value}
    (h : ∀ v ∈ elements, v.ForFunctions (AvoidsName x near)) :
    Ignores x near (Value.ForFunctions (AvoidsName x near)) (newArray elements) :=
  ignores_newObject.bind fun _ _ => .pure (Value.forFunctions_array.2 h)

theorem ignores_newHash {entries : Entries}
    (h : ∀ entry ∈ entries, entry.2.1.ForFunctions (AvoidsName x near) ∧
      entry.2.2.ForFunctions (AvoidsName x near)) :
    Ignores x near (Value.ForFunctions (AvoidsName x near)) (newHash entries) :=
  ignores_newObject.bind fun _ _ => .pure (Value.forFunctions_hash.2 h)

theorem ignores_newFunction {parameters : List (Name Token)} {body : Block Token} {scope : ScopeId}
    (h : AvoidsName x near parameters body scope) :
    Ignores x near (Value.ForFunctions (AvoidsName x near))
      (newFunction parameters body scope) :=
  ignores_newObject.bind fun _ _ => .pure (Value.forFunctions_function.2 h)

/-- The place of a stored error is the same in both machines. -/
theorem ignores_handOut (location : Option Location) {v : Value}
    (h : v.ForFunctions (AvoidsName x near)) :
    Ignores x near (Value.ForFunctions (AvoidsName x near)) (handOut location v) := by
  unfold handOut
  split
  · next e =>
    rintro m m' ⟨hkept, hsame⟩
    have hplace : m'.placeOf e = m.placeOf e := by
      unfold Machine.placeOf
      rw [hsame.places_eq]
    refine ⟨?_, Value.forFunctions_error _, hkept.notePlace e location,
      hsame.notePlace e location⟩
    simp only [hplace]
  · exact .pure h

/-- The new scope has the same number in both machines. -/
theorem ignores_newScope {around : Option ScopeId} {first : OrderedMap String Value}
    (haround : ∀ id ∈ around, near id)
    (hfirst : ∀ binding ∈ first, binding.2.ForFunctions (AvoidsName x near)) :
    Ignores x near near (newScope around first) := by
  rintro m m' ⟨hkept, hsame⟩
  refine ⟨congrArg Outcome.value hsame.size_eq, hkept.new_near _ (Nat.le_refl _), ?_, ?_⟩
  · exact hkept.newScope haround hfirst
  · exact hsame.newScope around first

theorem ignores_bindName (scope : ScopeId) (name : String) {v : Value}
    (h : v.ForFunctions (AvoidsName x near)) :
    Ignores x near (fun _ => True) (bindName scope name v) := by
  rintro m m' ⟨hkept, hsame⟩
  exact ⟨rfl, trivial, hkept.bindName scope name h, hsame.bindName scope name v⟩

/-- A lookup of another name from a near scope finds the same in both machines. -/
theorem ignores_lookup {scope : ScopeId} {name : String} (hname : name ≠ x) (hscope : near scope) :
    Ignores x near (fun found => ∀ v ∈ found, v.ForFunctions (AvoidsName x near))
      (lookup scope name) := by
  rintro m m' ⟨hkept, hsame⟩
  refine ⟨congrArg Outcome.value (hsame.lookup_eq hname scope), ?_, hkept, hsame⟩
  exact fun v hv => hkept.lookup hname hscope hv

theorem ignores_settle {v : Value} (h : v.ForFunctions (AvoidsName x near)) :
    Ignores x near (Value.ForFunctions (AvoidsName x near)) (settle v) := by
  unfold settle
  cases v with
  | error e => exact .interrupted trivial
  | returned v => exact .interrupted (Value.forFunctions_returned.1 h)
  | _ => exact .pure h

end Eval

open Eval

/-! ### Built-in functions -/

namespace Builtin

theorem ignores_writeAll (vs : List Value) : Ignores x near (fun _ => True) (writeAll vs) := by
  induction vs with
  | nil => exact .pure trivial
  | cons v vs ih => exact (ignores_writeLine _).bind fun _ _ => ih

theorem ignores_elementsOf (b : Builtin) (location : Option Location) {v : Value}
    (h : v.ForFunctions (AvoidsName x near)) :
    Ignores x near (fun elements => ∀ v ∈ elements, v.ForFunctions (AvoidsName x near))
      (orFault location (elementsOf b v)) := by
  refine .orFault (fun elements hresult => ?_) fun _ => trivial
  unfold elementsOf at hresult
  split at hresult
  · cases hresult
    exact Value.forFunctions_array.1 h
  · cases hresult

/-- Built-in functions look no names up, and what they yield was in their arguments. -/
theorem ignores_apply (b : Builtin) (location : Option Location) {arguments : List Value}
    (h : ∀ v ∈ arguments, v.ForFunctions (AvoidsName x near)) :
    Ignores x near (Value.ForFunctions (AvoidsName x near)) (b.apply location arguments) := by
  unfold apply
  split
  · exact (ignores_writeAll _).bind fun _ _ => .pure Value.forFunctions_null
  · refine .orFault (fun result hresult => ?_) fun _ => trivial
    exact (isAtom_length hresult).forFunctions
  · next v =>
    refine (ignores_elementsOf first location (h v List.mem_cons_self)).bind
      fun elements helements => ?_
    exact ignores_handOut location
      (Value.forFunctions_getD fun w hw => helements w (List.mem_of_head? hw))
  · next v =>
    refine (ignores_elementsOf last location (h v List.mem_cons_self)).bind
      fun elements helements => ?_
    exact ignores_handOut location
      (Value.forFunctions_getD fun w hw => helements w (List.mem_of_getLast? hw))
  · next v =>
    refine (ignores_elementsOf rest location (h v List.mem_cons_self)).bind
      fun elements helements => ?_
    cases elements with
    | nil => exact .pure Value.forFunctions_null
    | cons _ others =>
      exact ignores_newArray fun w hw => helements w (List.mem_cons_of_mem _ hw)
  · next v added =>
    refine (ignores_elementsOf push location (h v List.mem_cons_self)).bind
      fun elements helements => ?_
    refine ignores_newArray fun w hw => ?_
    rcases List.mem_append.1 hw with hold | hnew
    · exact helements w hold
    · exact List.mem_singleton.1 hnew ▸ h added (List.mem_cons_of_mem _ List.mem_cons_self)
  · exact .fault fun _ => trivial

end Builtin

/-! ### Programs -/

namespace Evaluation

/-- The evaluation of inner expressions ignores what `x` is bound to, if `x` does not stand in them
and they are evaluated in one of the scopes. -/
def InnerIgnores (x : String) (near : ScopeId → Prop) (inner : Inner) : Prop :=
  ∀ scope e, near scope → x ∉ e.names →
    Ignores x near (Value.ForFunctions (AvoidsName x near)) (inner scope e)

variable {inner : Inner} {scope : ScopeId} (hinner : InnerIgnores x near inner)
  (hscope : near scope)

include hinner hscope

/-! #### Statements -/

/-- **A statement ignores the name**, if it does not contain it and the expressions in it ignore it.
-/
theorem ignores_statement {s : Statement Token} (hs : x ∉ s.names) :
    Ignores x near (fun result => ∀ v ∈ result, v.ForFunctions (AvoidsName x near))
      (statement inner scope s) := by
  rcases s with ⟨tok, name, e⟩ | ⟨tok, _ | e⟩ | ⟨tok, e⟩
  · have he : x ∉ e.names := fun h => hs (List.mem_cons_of_mem _ h)
    refine (hinner scope e hscope he).bind fun v hv => ?_
    exact (ignores_bindName scope _ hv).bind fun _ _ => .pure Value.forFunctions_of_none
  · exact .interrupted Value.forFunctions_null
  · exact (hinner scope e hscope hs).bind fun v hv => .interrupted hv
  · refine (hinner scope e hscope hs).bind fun v hv => .pure ?_
    rintro w ⟨⟩
    exact hv

theorem ignores_statements {ss : List (Statement Token)} (hss : x ∉ namesOfStatements ss)
    {result : Option Value} (hresult : ∀ v ∈ result, v.ForFunctions (AvoidsName x near)) :
    Ignores x near (fun result => ∀ v ∈ result, v.ForFunctions (AvoidsName x near))
      (statements inner scope result ss) := by
  induction ss generalizing result with
  | nil => exact .pure hresult
  | cons s ss ih =>
    obtain ⟨hs, hss⟩ := not_or.1 (mt List.mem_append.2 hss)
    exact (ignores_statement hinner hscope hs).bind fun _ hnext => ih hss hnext

theorem ignores_block {b : Block Token} (hb : x ∉ b.names) :
    Ignores x near (Value.ForFunctions (AvoidsName x near)) (block inner scope b) := by
  obtain ⟨tok, ss⟩ := b
  refine (ignores_statements hinner hscope hb Value.forFunctions_of_none).bind
    fun result hresult => ?_
  exact .pure (Value.forFunctions_getD hresult)

/-! #### Calls -/

omit hscope in
/-- **A call** evaluates the body in a new scope, inside the one where the function was made. -/
theorem ignores_invoke (location : Option Location) {callee : Value} {arguments : List Value}
    (hcallee : callee.ForFunctions (AvoidsName x near))
    (harguments : ∀ v ∈ arguments, v.ForFunctions (AvoidsName x near)) :
    Ignores x near (Value.ForFunctions (AvoidsName x near))
      (invoke inner location callee arguments) := by
  unfold invoke
  split
  · exact Builtin.ignores_apply _ location harguments
  · next id parameters body made =>
    obtain ⟨-, hbody, hmade⟩ := Value.forFunctions_function.1 hcallee
    refine .ite (fun _ => ?_) fun _ => .fault fun _ => trivial
    have haround : ∀ id ∈ some made, near id := by
      rintro _ ⟨⟩
      exact hmade
    refine (ignores_newScope haround fun binding hmem =>
      harguments _ (List.of_mem_zip hmem).2).bind fun frame hframe => ?_
    exact (ignores_block hinner hframe hbody).takeReturned (fun _ hv => hv) fun _ => trivial
  · exact .fault fun _ => trivial

/-! #### Expressions -/

/-- So do operands, and no function among their values mentions the name. -/
theorem ignores_operands {es : List (Expr Token)} (hes : x ∉ namesOfExprs es) :
    Ignores x near (fun vs => ∀ v ∈ vs, v.ForFunctions (AvoidsName x near))
      (operands inner scope es) := by
  induction es with
  | nil => exact .pure (by simp)
  | cons e es ih =>
    obtain ⟨he, hes⟩ := not_or.1 (mt List.mem_append.2 hes)
    refine (hinner scope e hscope he).bind fun v hv => (ih hes).bind fun vs hvs => .pure ?_
    exact List.forall_mem_cons.2 ⟨hv, hvs⟩

theorem ignores_entries {pairs : List (Expr Token × Expr Token)} (hpairs : x ∉ namesOfPairs pairs)
    {stored : Entries}
    (hstored : ∀ entry ∈ stored, entry.2.1.ForFunctions (AvoidsName x near) ∧
      entry.2.2.ForFunctions (AvoidsName x near)) :
    Ignores x near (fun stored : Entries => ∀ entry ∈ stored,
        entry.2.1.ForFunctions (AvoidsName x near) ∧ entry.2.2.ForFunctions (AvoidsName x near))
      (entries inner scope stored pairs) := by
  induction pairs generalizing stored with
  | nil => exact .pure hstored
  | cons pair pairs ih =>
    obtain ⟨k, e⟩ := pair
    obtain ⟨hk, hrest⟩ := not_or.1 (mt List.mem_append.2 hpairs)
    obtain ⟨he, hpairs⟩ := not_or.1 (mt List.mem_append.2 hrest)
    unfold entries
    refine (hinner scope k hscope hk).bind fun key hkey => ?_
    split
    · exact .fault fun _ => trivial
    · refine (hinner scope e hscope he).bind fun item hitem => ih hpairs fun entry hmem => ?_
      rcases OrderedMap.mem_insert hmem with rfl | hold
      · exact ⟨hkey, hitem⟩
      · exact hstored entry hold

omit hinner in
/-- A name other than `x` is found alike, and so is a built-in function, if it is not bound. -/
theorem ignores_identifier (location : Option Location) {name : String} (hname : name ≠ x) :
    Ignores x near (Value.ForFunctions (AvoidsName x near)) (identifier scope location name) := by
  unfold identifier
  refine (ignores_lookup hname hscope).bind fun found hfound => ?_
  split
  · next v => exact ignores_settle (hfound v rfl)
  · split
    · exact .pure (Value.forFunctions_builtin _)
    · exact .fault fun _ => trivial

omit hscope in
/-- **One expression.**  If those inside it ignore what `x` is bound to, so does the whole. -/
theorem ignores_step : InnerIgnores x near (step inner) := by
  intro scope e hscope he
  cases e with
  | identifier tok name =>
    exact ignores_identifier hscope _ fun h => he (List.mem_singleton.2 h.symm)
  | integer => exact .pure (Value.IsAtom.integer _).forFunctions
  | boolean => exact .pure (Value.IsAtom.boolean _).forFunctions
  | string => exact .pure (Value.IsAtom.string _).forFunctions
  | unary tok op e =>
    refine (hinner scope e hscope he).bind fun v _ => ?_
    exact .orFault (fun _ h => (UnaryOp.isAtom_apply h).forFunctions) fun _ => trivial
  | binary tok left op right =>
    obtain ⟨hleft, hright⟩ := not_or.1 (mt List.mem_append.2 he)
    refine (hinner scope left hscope hleft).bind fun a _ => ?_
    refine (hinner scope right hscope hright).bind fun b _ => ?_
    exact .orFault (fun _ h => (BinaryOp.isAtom_apply h).forFunctions) fun _ => trivial
  | conditional tok condition consequence alternative =>
    cases alternative with
    | none =>
      obtain ⟨hcondition, hconsequence⟩ := not_or.1 (mt List.mem_append.2 he)
      refine (hinner scope condition hscope hcondition).bind fun v _ => ?_
      exact .ite (fun _ => ignores_block hinner hscope hconsequence) fun _ =>
        .pure Value.forFunctions_null
    | some b =>
      obtain ⟨hcondition, hblocks⟩ := not_or.1 (mt List.mem_append.2 he)
      obtain ⟨hconsequence, hb⟩ := not_or.1 (mt List.mem_append.2 hblocks)
      refine (hinner scope condition hscope hcondition).bind fun v _ => ?_
      exact .ite (fun _ => ignores_block hinner hscope hconsequence) fun _ =>
        ignores_block hinner hscope hb
  | function tok parameters body =>
    obtain ⟨hparameters, hbody⟩ := not_or.1 (mt List.mem_append.2 he)
    exact ignores_newFunction ⟨hparameters, hbody, hscope⟩
  | call tok callee arguments =>
    obtain ⟨hcallee, harguments⟩ := not_or.1 (mt List.mem_append.2 he)
    refine (hinner scope callee hscope hcallee).bind fun f hf => ?_
    refine (ignores_operands hinner hscope harguments).bind fun vs hvs => ?_
    exact (ignores_invoke hinner _ hf hvs).bind fun _ hv => ignores_settle hv
  | array tok elements =>
    exact (ignores_operands hinner hscope he).bind fun vs hvs => ignores_newArray hvs
  | hash tok pairs =>
    exact (ignores_entries hinner hscope he (by simp)).bind fun stored hstored =>
      ignores_newHash hstored
  | index tok store subscript =>
    obtain ⟨hstore, hsubscript⟩ := not_or.1 (mt List.mem_append.2 he)
    refine (hinner scope store hscope hstore).bind fun s hs => ?_
    refine (hinner scope subscript hscope hsubscript).bind fun i _ => ?_
    have hfound : Ignores x near (Value.ForFunctions (AvoidsName x near))
        (orFault tok.location (s.at i)) :=
      .orFault (fun _ h => Value.forFunctions_at hs h) fun _ => trivial
    exact hfound.bind fun _ hv => ignores_settle hv

end Evaluation

/-- **Every expression** ignores what a name is bound to that does not stand in it. -/
theorem ignores_evaluate (depth : Nat) : Evaluation.InnerIgnores x near (evaluate depth) := by
  induction depth with
  | zero => exact fun _ _ _ _ => .tooDeep
  | succ depth ih => exact Evaluation.ignores_step ih

/-- `x` stands in no function that can be reached from the scope. -/
def Scopes.Unmentioned (s : Scopes Value) (scope : ScopeId) (x : String) : Prop :=
  ∀ owner, s.Reaches scope owner → ∀ name v,
    OrderedMap.find? name (s.bindings owner) = some v →
      v.ForFunctions fun parameters body _ => x ∉ parameters.map Name.text ∧ x ∉ body.names

/-- Where a run that begins in the scope can get to: what can be reached at first, and all scopes
that are not there yet. -/
def Scopes.InReach (s : Scopes Value) (scope id : ScopeId) : Prop :=
  s.Reaches scope id ∨ s.size ≤ id

theorem Scopes.Unmentioned.keepsOut {scope : ScopeId} (h : m.scopes.Unmentioned scope x) :
    m.KeepsOut x (m.scopes.InReach scope) where
  new_near id hid := .inr hid
  outer_near id around hid houter := by
    rcases hid with hreached | hsize
    · exact .inl (hreached.outer houter)
    · rw [Scopes.outer_of_size_le hsize] at houter
      cases houter
  bound id hid name hname v hv := by
    rcases hid with hreached | hsize
    · refine (h id hreached name v hv).mono fun _ parameters body made hinside hnames => ?_
      exact ⟨hnames.1, hnames.2, .inl (hreached.captured hv hinside)⟩
    · rw [Scopes.bindings_of_size_le hsize] at hv
      cases hv

/-- **Unmentioned bindings do not matter.**  Let `x` stand neither in the program nor in any
function that can be reached from the scope.  Whatever `x` is bound to in whatever scope before the
run, the program ends in the same way, with the same value, and it leaves a machine with the same
output, the same scopes, and the same bindings of all other names in each of them. -/
theorem runProgram_unmentioned {program : Program Token} {scope : ScopeId}
    (hprogram : x ∉ namesOfStatements program) (hscope : m.scopes.Unmentioned scope x)
    (depth : Nat) (target : ScopeId) (v : Value) :
    let run := runProgram depth scope program m
    let run' := runProgram depth scope program { m with scopes := m.scopes.bind target x v }
    run'.1 = run.1 ∧ run.2.SameBut x run'.2 := by
  have hnear : m.scopes.InReach scope scope := .inl .refl
  have hstatements := Evaluation.ignores_statements (ignores_evaluate depth) hnear hprogram
    Value.forFunctions_of_none
  have hrun : Ignores x (m.scopes.InReach scope) _ (runProgram depth scope program) :=
    hstatements.takeReturned (fun v hv w hw => Option.some.inj hw ▸ hv) fun _ => trivial
  obtain ⟨houtcome, -, -, hsame⟩ := hrun m _ ⟨hscope.keepsOut, .of_bind m target v⟩
  exact ⟨houtcome, hsame⟩

/-- A call of a function that reads one name, with the name of a built-in function bound to a number
in the scope of both. -/
theorem runProgram_unmentioned_len :
    let token (lexeme : Lexeme) : Token := ⟨lexeme, none⟩
    let name (text : String) : Expr Token := .identifier (token (.identifier text)) text
    let plus : Token := token (.symbol .plus)
    let body : Block Token := .mk plus [.expression plus (.binary plus (name "n") .add (name "y"))]
    let f : Value := .function 0 [⟨token (.identifier "y"), "y"⟩] body 0
    let m : Machine := { scopes := Scopes.empty.create none [("n", .integer 2), ("f", f)] }
    let three : Expr Token := .integer (token (.integer "3")) 3
    let program : Program Token := [.expression plus (.call plus (name "f") [three])]
    let run' := runProgram 4 0 program { m with scopes := m.scopes.bind 0 "len" (.integer 7) }
    "len" ∉ namesOfStatements program ∧ m.scopes.Unmentioned 0 "len" ∧
      run'.1 = .value (some (.integer 5)) ∧
      run'.2.scopes.lookup 0 "len" = some (.integer 7) ∧
      OrderedMap.find? "y" (run'.2.scopes.bindings 1) = some (.integer 3) := by
  intro token name plus body f m three program run'
  have hprogram : "len" ∉ namesOfStatements program := by decide
  have hbound : ∀ name v, OrderedMap.find? name (m.scopes.bindings 0) = some v →
      v.ForFunctions (AvoidsName "len" (· = 0)) := by
    intro name v hv
    have hmem : (name, v) ∈ [("n", .integer 2), ("f", f)] := OrderedMap.mem_of_find? hv
    rcases List.mem_cons.1 hmem with hn | hf
    · cases hn
      exact (Value.IsAtom.integer 2).forFunctions
    · cases List.mem_singleton.1 hf
      exact Value.forFunctions_function.2 ⟨by decide, by decide, rfl⟩
  have hreached : ∀ owner, m.scopes.Reaches 0 owner → owner = 0 := by
    intro owner h
    induction h with
    | refl => rfl
    | outer _ lies_in ih =>
      subst ih
      cases lies_in
    | captured _ bound inside ih =>
      subst ih
      exact (hbound _ _ bound _ _ _ _ inside).2.2
  have hscope : m.scopes.Unmentioned 0 "len" := by
    intro owner howner name v hv
    obtain rfl := hreached owner howner
    exact (hbound name v hv).mono fun _ _ _ _ _ h => ⟨h.1, h.2.1⟩
  obtain ⟨houtcome, hsame⟩ := runProgram_unmentioned hprogram hscope 4 0 (.integer 7)
  exact ⟨hprogram, hscope, houtcome, rfl, hsame.find?_eq 1 "y" (by decide)⟩

end MonkeyLang
