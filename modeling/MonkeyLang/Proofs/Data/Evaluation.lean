import Mathlib.Data.List.Induction
import MonkeyLang.Proofs.Data
import MonkeyLang.Proofs.EvalLaws
import MonkeyLang.Proofs.Session

/-!
# Evaluations keep to data

An error or a returned value cuts an evaluation short, and is never mistaken for a value on the way:
what a program binds, stores, hands over or returns is data, in every machine of every session.

## Main Definitions

* `Eval.KeepsData` — the evaluation leaves only data behind, and returns only data
* `Eval.CallKeepsData` — it does, and lets no returned value out

## Main Statements

* `Evaluation.keepsData_step` — an expression keeps to data, if those inside it do
* `Evaluation.keepsData_invoke` — so does a call, and it lets no returned value out
* `keepsData_evaluate` — every expression keeps to data
* `Session.after_keeps_to_data` — all of this in every machine of every session

## Design Notes

That an expression yields a value at all, and never nothing, is its type: only statements may yield
nothing, and `Evaluation.block` makes null of it.
-/

namespace MonkeyLang

variable {location : Option Location}

/-- What a statement yields is data, if it yields anything. -/
abbrev YieldsData (result : Option Value) : Prop := ∀ v ∈ result, v.IsData

theorem yieldsData_none : YieldsData none :=
  fun _ hnone => nomatch hnone

theorem yieldsData_some {v : Value} (h : v.IsData) : YieldsData (some v) := by
  rintro w ⟨⟩
  exact h

namespace Eval

variable {α : Type}

/-- The evaluation leaves only data behind, whether it ends with a value, with an error, with a
returned value, which is data then, or at the depth limit. -/
abbrev KeepsData (value : α → Prop) (x : Eval α) : Prop :=
  Keeps Machine.HoldsData value Interrupt.CarriesData x

/-- The same of an evaluation that lets no returned value out. -/
abbrev CallKeepsData (value : α → Prop) (x : Eval α) : Prop :=
  Keeps Machine.HoldsData value Interrupt.IsError x

theorem CallKeepsData.keepsData {value : α → Prop} {x : Eval α} (h : CallKeepsData value x) :
    KeepsData value x :=
  h.mono (fun _ hvalue => hvalue) fun _ hinterrupt => hinterrupt.carriesData

/-! ### Effects -/

section Effects

variable {interrupt : Interrupt → Prop}

theorem keeps_writeLine (text : String) :
    Keeps Machine.HoldsData (fun _ => True) interrupt (writeLine text) :=
  fun _ hm => ⟨trivial, hm⟩

theorem keeps_newObject : Keeps Machine.HoldsData (fun _ => True) interrupt newObject :=
  fun _ hm => ⟨trivial, hm⟩

theorem keeps_newArray {elements : List Value} (h : ∀ v ∈ elements, v.IsData) :
    Keeps Machine.HoldsData Value.IsData interrupt (newArray elements) :=
  keeps_newObject.bind fun _ _ => .pure (.array h)

theorem keeps_newHash {entries : Entries} (h : entries.AreData) :
    Keeps Machine.HoldsData Value.IsData interrupt (newHash entries) :=
  keeps_newObject.bind fun _ _ => .pure (Value.IsData.hash_iff.2 h)

theorem keeps_newFunction (parameters : List (Name Token)) (body : Block Token) (scope : ScopeId) :
    Keeps Machine.HoldsData Value.IsData interrupt (newFunction parameters body scope) :=
  keeps_newObject.bind fun _ _ => .pure (.function ..)

/-- Data is handed out as it is: only a stored error can get a place on this occasion. -/
theorem keeps_handOut {v : Value} (h : v.IsData) :
    Keeps Machine.HoldsData Value.IsData interrupt (handOut location v) := by
  unfold handOut
  split
  · cases h
  · exact .pure h

theorem keeps_newScope (outer : Option ScopeId) {bindings : OrderedMap String Value}
    (h : ∀ binding ∈ bindings, binding.2.IsData) :
    Keeps Machine.HoldsData (fun _ => True) interrupt (newScope outer bindings) :=
  fun _ hm => ⟨trivial, hm.create outer h⟩

theorem keeps_bindName (scope : ScopeId) (name : String) {v : Value} (h : v.IsData) :
    Keeps Machine.HoldsData (fun _ => True) interrupt (bindName scope name v) :=
  fun _ hm => ⟨trivial, hm.bind scope name h⟩

theorem keeps_lookup (scope : ScopeId) (name : String) :
    Keeps Machine.HoldsData YieldsData interrupt (lookup scope name) :=
  fun _ hm => ⟨fun _ hfound => hm.lookup hfound, hm⟩

/-- Data is never taken for an interrupt. -/
theorem keeps_settle {v : Value} (h : v.IsData) :
    Keeps Machine.HoldsData Value.IsData interrupt (settle v) := by
  refine .settle (fun _ => h) fun i hi => ?_
  rw [h.interrupt?_eq_none] at hi
  cases hi

end Effects

end Eval

open Eval

/-! ### Built-in functions -/

namespace Builtin

theorem keepsData_writeAll (vs : List Value) :
    CallKeepsData (fun _ => True) (writeAll vs) := by
  induction vs with
  | nil => exact .pure trivial
  | cons v vs ih =>
    unfold writeAll
    exact (keeps_writeLine _).bind fun _ _ => ih

theorem keepsData_length (v : Value) :
    CallKeepsData Value.IsData (orFault location (length v)) :=
  .orFault (fun _ h => (isAtom_length h).isData) fun _ _ => trivial

theorem keepsData_elementsOf (b : Builtin) {v : Value} (hv : v.IsData) :
    CallKeepsData (fun elements => ∀ v ∈ elements, v.IsData)
      (orFault location (elementsOf b v)) := by
  refine .orFault (fun elements h => ?_) fun _ _ => trivial
  unfold elementsOf at h
  split at h
  · cases h
    exact Value.IsData.array_iff.1 hv
  · cases h

/-- **Built-in functions keep to data.**  They hand out elements of arrays and make new arrays of
them, so nothing gets into their results that was not in their arguments. -/
theorem keepsData_apply (b : Builtin) {arguments : List Value}
    (h : ∀ v ∈ arguments, v.IsData) : CallKeepsData Value.IsData (b.apply location arguments) := by
  unfold apply
  split
  · exact (keepsData_writeAll _).bind fun _ _ => .pure .null
  · exact keepsData_length _
  · next v =>
    have hv : v.IsData := h v List.mem_cons_self
    refine (keepsData_elementsOf first hv).bind fun elements helements => ?_
    exact keeps_handOut (.getD fun w hw => helements w (List.mem_of_head? hw))
  · next v =>
    have hv : v.IsData := h v List.mem_cons_self
    refine (keepsData_elementsOf last hv).bind fun elements helements => ?_
    exact keeps_handOut (.getD fun w hw => helements w (List.mem_of_getLast? hw))
  · next v =>
    have hv : v.IsData := h v List.mem_cons_self
    refine (keepsData_elementsOf rest hv).bind fun elements helements => ?_
    cases elements with
    | nil => exact .pure .null
    | cons _ others => exact keeps_newArray fun w hw => helements w (List.mem_cons_of_mem _ hw)
  · next v added =>
    have hv : v.IsData := h v List.mem_cons_self
    have hadded : added.IsData := h added (List.mem_cons_of_mem _ List.mem_cons_self)
    refine (keepsData_elementsOf push hv).bind fun elements helements => ?_
    refine keeps_newArray fun w hw => ?_
    rcases List.mem_append.1 hw with hold | hnew
    · exact helements w hold
    · exact List.mem_singleton.1 hnew ▸ hadded
  · exact .fault trivial

end Builtin

namespace Evaluation

variable {inner : Inner} (hinner : ∀ scope e, KeepsData Value.IsData (inner scope e))

include hinner

/-! ### Statements -/

/-- **A statement keeps to data**, if the expressions in it do. -/
theorem keepsData_statement (scope : ScopeId) (s : Statement Token) :
    KeepsData YieldsData (statement inner scope s) := by
  unfold statement
  split
  · refine (hinner scope _).bind fun v hv => ?_
    exact (keeps_bindName scope _ hv).bind fun _ _ => .pure yieldsData_none
  · exact .interrupted Value.IsData.null
  · exact (hinner scope _).bind fun v hv => .interrupted hv
  · exact (hinner scope _).bind fun v hv => .pure (yieldsData_some hv)

theorem keepsData_statements (scope : ScopeId) (program : List (Statement Token))
    {result : Option Value} (hresult : YieldsData result) :
    KeepsData YieldsData (statements inner scope result program) := by
  induction program generalizing result with
  | nil => exact .pure hresult
  | cons s rest ih =>
    unfold statements
    exact (keepsData_statement hinner scope s).bind fun _ hnext => ih hnext

theorem keepsData_block (scope : ScopeId) (b : Block Token) :
    KeepsData Value.IsData (block inner scope b) :=
  (keepsData_statements hinner scope b.statements yieldsData_none).bind fun _ hresult =>
    .pure (.getD hresult)

/-! ### Calls -/

/-- **A call lets no returned value out.**  Its arguments become bindings of a new scope, and what
the body returns is the value of the call.  Whatever is called, nothing is asked of it. -/
theorem keepsData_invoke (callee : Value) {arguments : List Value}
    (h : ∀ v ∈ arguments, v.IsData) :
    CallKeepsData Value.IsData (invoke inner location callee arguments) := by
  unfold invoke
  split
  · exact Builtin.keepsData_apply _ h
  · refine .ite (fun _ => ?_) fun _ => .fault trivial
    -- A frame binds parameters to arguments, and nothing else.
    have hbindings : ∀ names : List String, ∀ binding ∈ names.zip arguments, binding.2.IsData :=
      fun names binding hmem => h _ (List.of_mem_zip hmem).2
    refine (keeps_newScope _ (hbindings _)).bind fun frame _ => ?_
    exact (keepsData_block hinner frame _).takeReturned (fun _ hv => hv) fun _ _ => trivial
  · exact .fault trivial

/-! ### Expressions -/

/-- Operands are worth data, each of them. -/
theorem keepsData_operands (scope : ScopeId) (es : List (Expr Token)) :
    KeepsData (fun vs => ∀ v ∈ vs, v.IsData) (operands inner scope es) := by
  induction es with
  | nil => exact .pure fun _ hmem => nomatch hmem
  | cons e es ih =>
    unfold operands
    refine (hinner scope e).bind fun v hv => ih.bind fun vs hvs => .pure ?_
    exact List.forall_mem_cons.2 ⟨hv, hvs⟩

/-- A pair is stored when its key and its item are data, and under the hash key of its key. -/
theorem keepsData_entries (scope : ScopeId) (pairs : List (Expr Token × Expr Token))
    {stored : Entries} (hstored : stored.AreData) :
    KeepsData Entries.AreData (entries inner scope stored pairs) := by
  induction pairs generalizing stored with
  | nil => exact .pure hstored
  | cons pair rest ih =>
    obtain ⟨k, v⟩ := pair
    unfold entries
    refine (hinner scope k).bind fun key hkey => ?_
    split
    · exact .fault trivial
    · next slot hslot =>
      exact (hinner scope v).bind fun item hitem => ih (hstored.insert hslot hkey hitem)

omit hinner in
theorem keepsData_identifier (scope : ScopeId) (name : String) :
    KeepsData Value.IsData (identifier scope location name) := by
  unfold identifier
  refine (keeps_lookup scope name).bind fun found hfound => ?_
  split
  · next v => exact keeps_settle (hfound v rfl)
  · split
    · exact .pure (.builtin _)
    · exact .fault trivial

/-- **One expression.**  If the expressions inside it keep to data, so does the whole. -/
theorem keepsData_step (scope : ScopeId) (e : Expr Token) :
    KeepsData Value.IsData (step inner scope e) := by
  cases e with
  | identifier t name => exact keepsData_identifier scope name
  | integer => exact .pure (.integer _)
  | boolean => exact .pure (.boolean _)
  | string => exact .pure (.string _)
  | unary t op e =>
    refine (hinner scope e).bind fun v _ => ?_
    exact .orFault (fun _ hresult => (UnaryOp.isAtom_apply hresult).isData) fun _ _ => trivial
  | binary t left op right =>
    refine (hinner scope left).bind fun a _ => (hinner scope right).bind fun b _ => ?_
    exact .orFault (fun _ hresult => (BinaryOp.isAtom_apply hresult).isData) fun _ _ => trivial
  | conditional t condition consequence alternative =>
    refine (hinner scope condition).bind fun v _ => ?_
    refine .ite (fun _ => keepsData_block hinner scope consequence) fun _ => ?_
    cases alternative with
    | none => exact .pure .null
    | some b => exact keepsData_block hinner scope b
  | function t parameters body => exact keeps_newFunction parameters body scope
  | call t callee arguments =>
    refine (hinner scope callee).bind fun f _ => ?_
    refine (keepsData_operands hinner scope arguments).bind fun vs hvs => ?_
    exact (keepsData_invoke hinner f hvs).keepsData.bind fun _ hresult => keeps_settle hresult
  | array t elements =>
    exact (keepsData_operands hinner scope elements).bind fun _ hvs => keeps_newArray hvs
  | hash t pairs =>
    exact (keepsData_entries hinner scope pairs .nil).bind fun _ hstored => keeps_newHash hstored
  | index t store subscript =>
    refine (hinner scope store).bind fun s hs => (hinner scope subscript).bind fun i _ => ?_
    have hfound : KeepsData Value.IsData (orFault t.location (s.at i)) :=
      .orFault (fun _ hresult => Value.isData_at hs hresult) fun _ _ => trivial
    exact hfound.bind fun _ hv => keeps_settle hv

end Evaluation

/-- Every expression keeps to data, also when its evaluation is given up on the way. -/
theorem keepsData_evaluateUntil (stop : ScopeId → Expr Token → Machine → Bool) (depth : Nat)
    (scope : ScopeId) (e : Expr Token) :
    KeepsData Value.IsData (evaluateUntil stop depth scope e) := by
  -- The body of a called function is no part of the expression, but it is evaluated less deeply.
  induction depth generalizing scope e with
  | zero => exact .tooDeep
  | succ depth ih =>
    intro m hm
    unfold evaluateUntil
    split
    · exact ⟨trivial, hm⟩
    · exact Evaluation.keepsData_step ih scope e m hm

/-- **Every expression keeps to data.** -/
theorem keepsData_evaluate (depth : Nat) (scope : ScopeId) (e : Expr Token) :
    KeepsData Value.IsData (evaluate depth scope e) := by
  rw [← evaluateUntil_never]
  exact keepsData_evaluateUntil _ depth scope e

/-! ### Programs and sources -/

/-- So does a program, where nothing is returned from any more. -/
theorem keepsData_runProgram (depth : Nat) (scope : ScopeId) (program : Program Token) :
    CallKeepsData YieldsData (runProgram depth scope program) := by
  have hstatements : KeepsData YieldsData
      (Evaluation.statements (evaluate depth) scope none program) :=
    Evaluation.keepsData_statements (keepsData_evaluate depth) scope program yieldsData_none
  exact hstatements.takeReturned (fun _ hv => yieldsData_some hv) fun _ _ => trivial

/-- What a program comes to is data or an error. -/
theorem Outcome.Satisfies.result {outcome : Outcome (Option Value)}
    (h : outcome.Satisfies YieldsData Interrupt.IsError) :
    ∀ v ∈ outcome.result, v.IsData ∨ ∃ e, v = .error e := by
  intro v hv
  cases outcome with
  | value result => exact .inl (h v hv)
  | interrupt i =>
    cases i with
    | error e =>
      cases hv
      exact .inr ⟨e, rfl⟩
    | returned w => cases h
  | tooDeep =>
    cases hv
    exact .inr ⟨_, rfl⟩

/-- **A source leaves only data behind, and its result is data or an error.** -/
theorem keepsData_runSource (source : String) (start : Option Location) (scope : ScopeId)
    {m : Machine} (hm : m.HoldsData) (limit : Nat) :
    (∀ result, (runSource source start scope m limit).1 = .ok result →
        ∀ v ∈ result, v.IsData ∨ ∃ e, v = .error e) ∧
      (runSource source start scope m limit).2.HoldsData := by
  unfold runSource
  split
  · constructor
    · intro result h
      cases h
    · exact hm
  · next program _ =>
    obtain ⟨houtcome, hkept⟩ := keepsData_runProgram limit scope program m hm
    constructor
    · intro result h
      cases h
      exact houtcome.result
    · exact hkept

namespace Console

/-- What a console says changes no binding. -/
theorem scopes_complain (c : Console) (errors : List SyntaxError) :
    (c.complain errors).machine.scopes = c.machine.scopes := by
  unfold complain
  induction errors generalizing c with
  | nil => rfl
  | cons e errors ih => exact ih _

theorem holdsData_run {c : Console} (h : c.machine.HoldsData) (program : Program Token) :
    (c.run program).machine.HoldsData := by
  have hkept := (keepsData_runProgram c.limit c.scope program c.machine h).2
  unfold run
  generalize runProgram c.limit c.scope program c.machine = ending at hkept
  obtain ⟨outcome, m⟩ := ending
  simp only
  split
  · exact hkept
  · split
    · exact hkept
    · exact hkept

/-- A line leaves data behind, whether it completes a program or not. -/
theorem holdsData_push {c : Console} (h : c.machine.HoldsData) (line : String) :
    (c.push line).2.machine.HoldsData := by
  unfold push
  simp only
  -- Only a run changes bindings; a line that waits or is complained about does not.
  split
  · exact h
  · split
    · exact holdsData_run (c := { c with pending := [] }) h _
    · split
      · unfold Machine.HoldsData
        rw [scopes_complain]
        exact h
      · exact h

end Console

/-! ### Sessions -/

namespace Session

theorem Event.holdsData_apply {m : Machine} (h : m.HoldsData) (e : Event) :
    (e.apply m).HoldsData := by
  cases e with
  | create outer => exact h.create outer fun _ hmem => nomatch hmem
  | run source start scope limit => exact (keepsData_runSource source start scope h limit).2
  | push line pending scope limit => exact Console.holdsData_push h line
  | cut stop depth scope program =>
    exact (Evaluation.keepsData_statements (keepsData_evaluateUntil stop depth) scope program
      yieldsData_none m h).2

/-- Every machine of every session holds nothing but data. -/
theorem holdsData_after (events : List Event) : (after events).HoldsData := by
  induction events using List.reverseRecOn with
  | nil =>
    rw [after_nil]
    exact Scopes.Holds.empty
  | append_singleton events e ih =>
    rw [after_append]
    exact e.holdsData_apply ih

/-- **Control never becomes data.**  After every session, everything that is bound in any scope is
data; so is what an expression yields or returns, and what a call yields.  No call and no source
lets a returned value out. -/
theorem after_keeps_to_data (events : List Event) :
    (after events).HoldsData ∧
      (∀ depth scope e, (evaluate depth scope e (after events)).1.Satisfies
        Value.IsData Interrupt.CarriesData) ∧
      (∀ depth location callee arguments, (∀ v ∈ arguments, v.IsData) →
        (Evaluation.invoke (evaluate depth) location callee arguments (after events)).1.Satisfies
          Value.IsData Interrupt.IsError) ∧
      (∀ source start scope limit result,
        (runSource source start scope (after events) limit).1 = .ok result →
          ∀ v ∈ result, v.IsData ∨ ∃ e, v = .error e) := by
  have h : (after events).HoldsData := holdsData_after events
  refine ⟨h, ?_, ?_, ?_⟩
  · intro depth scope e
    exact (keepsData_evaluate depth scope e _ h).1
  · intro depth location callee arguments hdata
    exact (Evaluation.keepsData_invoke (keepsData_evaluate depth) callee hdata _ h).1
  · intro source start scope limit
    exact (keepsData_runSource source start scope h limit).1

/-- A source that returns an array from inside a conditional of a function, and a built-in function
called with such an array. -/
theorem after_keeps_to_data_first :
    (∃ result, (runSource "fn(x) \x7b if (x) \x7b return [x]; \x7d \x7d(true)" none 0
        (after [.create none]) 4).1 = .ok result ∧
      result.map Value.render = some "[true]" ∧ ∀ v ∈ result, v.IsData ∨ ∃ e, v = .error e) ∧
      (Evaluation.invoke (evaluate 1) none (.builtin .first) [.array 1 [.boolean true]]
        (after [.create none])).1.Satisfies Value.IsData Interrupt.IsError := by
  have hshown : ((runSource "fn(x) \x7b if (x) \x7b return [x]; \x7d \x7d(true)" none 0
      (after [.create none]) 4).1.toOption.map fun result => result.map Value.render) =
        some (some "[true]") := by
    decide +kernel
  have harray : (Value.array 1 [.boolean true]).IsData := by
    simp [Value.IsData.array_iff, Value.IsData.boolean]
  obtain ⟨-, -, hcall, hsource⟩ := after_keeps_to_data [.create none]
  constructor
  · cases h : (runSource "fn(x) \x7b if (x) \x7b return [x]; \x7d \x7d(true)" none 0
        (after [.create none]) 4).1 with
    | error rejection =>
      rw [h] at hshown
      cases hshown
    | ok result =>
      rw [h] at hshown
      exact ⟨result, rfl, Option.some.inj hshown, hsource _ _ _ _ _ h⟩
  · exact hcall _ _ _ _ fun v hv => List.mem_singleton.1 hv ▸ harray

end Session

end MonkeyLang
