import MonkeyLang.Evaluation

/-!
# Laws of evaluations

An evaluation reads and changes a machine and ends in one of three ways.  What it keeps true is a
condition on the machine that holds again at every ending, together with what can be said of the
value or of the interrupt.

## Main Definitions

* `Outcome.Satisfies` — what is known of an outcome: one condition for values, one for interrupts
* `Eval.Keeps` — the evaluation keeps a condition on the machine and has such an outcome

## Main Statements

* `Eval.Keeps.bind` — the rule for sequences
* `Eval.Keeps.takeReturned` — the rule for calls and programs: no returned value gets past them

## Design Notes

Reaching the depth limit is an outcome without any data, so nothing is asked of it.  The machine it
leaves has to keep the condition all the same.
-/

namespace MonkeyLang

variable {α β : Type}

/-- What is known of an outcome. -/
def Outcome.Satisfies (value : α → Prop) (interrupt : Interrupt → Prop) : Outcome α → Prop
  | .value a => value a
  | .interrupt i => interrupt i
  | .tooDeep => True

theorem Outcome.Satisfies.mono {value value' : α → Prop} {interrupt interrupt' : Interrupt → Prop}
    {outcome : Outcome α} (h : outcome.Satisfies value interrupt) (hv : ∀ a, value a → value' a)
    (hi : ∀ i, interrupt i → interrupt' i) : outcome.Satisfies value' interrupt' := by
  cases outcome with
  | value a => exact hv a h
  | interrupt i => exact hi i h
  | tooDeep => trivial

namespace Eval

/-- From a machine that fulfils the condition `kept`, the evaluation leaves one that fulfils it
again, however it ends; its value and its interrupt have the given properties. -/
def Keeps (kept : Machine → Prop) (value : α → Prop) (interrupt : Interrupt → Prop)
    (x : Eval α) : Prop :=
  ∀ m, kept m → (x m).1.Satisfies value interrupt ∧ kept (x m).2

namespace Keeps

variable {kept : Machine → Prop} {value value' : α → Prop} {other : β → Prop}
  {interrupt interrupt' : Interrupt → Prop} {x : Eval α} {location : Option Location}

/-- What is known of results and interrupts may be weakened. -/
theorem mono (h : Keeps kept value interrupt x) (hv : ∀ a, value a → value' a)
    (hi : ∀ i, interrupt i → interrupt' i) : Keeps kept value' interrupt' x := by
  intro m hm
  obtain ⟨houtcome, hkept⟩ := h m hm
  exact ⟨houtcome.mono hv hi, hkept⟩

/-! ### Sequences -/

theorem pure {a : α} (h : value a) : Keeps kept value interrupt (Pure.pure a : Eval α) :=
  fun _ hm => ⟨h, hm⟩

/-- **The rule for sequences.**  What the first evaluation says of its value is what the second one
may build on.  An interrupt of either is an interrupt of both. -/
theorem bind {f : α → Eval β} (hx : Keeps kept value interrupt x)
    (hf : ∀ a, value a → Keeps kept other interrupt (f a)) :
    Keeps kept other interrupt (x >>= f) := by
  intro m hm
  obtain ⟨houtcome, hkept⟩ := hx m hm
  rw [bind_apply]
  generalize x m = ending at houtcome hkept
  obtain ⟨outcome, m'⟩ := ending
  cases outcome with
  | value a => exact hf a houtcome m' hkept
  | interrupt i => exact ⟨houtcome, hkept⟩
  | tooDeep => exact ⟨trivial, hkept⟩

/-- Each branch may rely on its side of the condition. -/
theorem ite {condition : Prop} [Decidable condition] {y : Eval α}
    (hx : condition → Keeps kept value interrupt x)
    (hy : ¬condition → Keeps kept value interrupt y) :
    Keeps kept value interrupt (if condition then x else y) := by
  split
  · next h => exact hx h
  · next h => exact hy h

/-! ### Endings -/

theorem interrupted {i : Interrupt} (h : interrupt i) :
    Keeps kept value interrupt (Eval.interrupt i : Eval α) :=
  fun _ hm => ⟨h, hm⟩

theorem tooDeep : Keeps kept value interrupt (Eval.tooDeep : Eval α) :=
  fun _ hm => ⟨trivial, hm⟩

theorem fault {f : Fault} (h : interrupt (.error { fault := f, location })) :
    Keeps kept value interrupt (Eval.fault location f : Eval α) :=
  interrupted h

/-- A computation that can fail gives its result, or an error with its cause. -/
theorem orFault {r : Except Fault α} (hok : ∀ a, r = .ok a → value a)
    (herror : ∀ f, r = .error f → interrupt (.error { fault := f, location })) :
    Keeps kept value interrupt (Eval.orFault location r) := by
  cases r with
  | ok a => exact pure (hok a rfl)
  | error f => exact fault (herror f rfl)

/-- A value that is no interrupt passes, and any other one ends the evaluation as an interrupt. -/
theorem settle {v : Value} {value : Value → Prop} (hpass : v.interrupt? = none → value v)
    (hend : ∀ i, v.interrupt? = some i → interrupt i) :
    Keeps kept value interrupt (Eval.settle v) := by
  unfold Eval.settle
  split
  · next i hi => exact interrupted (hend i hi)
  · next hv => exact pure (hpass hv)

/-- **Nothing returned gets past a call or a program.**  A returned value becomes an ordinary one
there, so that the interrupts left over are errors. -/
theorem takeReturned {f : Value → α} (hx : Keeps kept value interrupt x)
    (hreturned : ∀ v, interrupt (.returned v) → value (f v))
    (herror : ∀ e, interrupt (.error e) → interrupt' (.error e)) :
    Keeps kept value interrupt' (Eval.takeReturned x f) := by
  intro m hm
  obtain ⟨houtcome, hkept⟩ := hx m hm
  unfold Eval.takeReturned
  generalize x m = ending at houtcome hkept
  obtain ⟨outcome, m'⟩ := ending
  cases outcome with
  | value a => exact ⟨houtcome, hkept⟩
  | interrupt i =>
    cases i with
    | error e => exact ⟨herror e houtcome, hkept⟩
    | returned v => exact ⟨hreturned v houtcome, hkept⟩
  | tooDeep => exact ⟨trivial, hkept⟩

end Keeps

end Eval

end MonkeyLang
