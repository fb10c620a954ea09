import MonkeyLang.Proofs.EvalRules
import MonkeyLang.Proofs.RecursiveMap.Source
import MonkeyLang.Proofs.SettingAside
import MonkeyLang.Proofs.Unwinding

/-!
# Mapping a function over an array

The recursive `map` calls its function on each element in turn, and gathers what the calls yield.

## Main Definitions

* `callOn` — the call of a function on a value
* `CallsInTurn` — calls on each of some values, with nothing but bookkeeping between them
* `CallsYield` — calls that always end in a value
* `RecursiveMap.Maps` — what comes of mapping a function over values

## Main Statements

* `keepsData_callOn` — how a call on data can end
* `CallsInTurn.output_eq` — what calls in turn write
* `RecursiveMap.invoke_iter_nil`, `RecursiveMap.invoke_iter_cons` — the inner function, without an
  element and with one
* `RecursiveMap.maps_iter` — the inner function from any element on, by induction on the elements
* `RecursiveMap.maps_map` — a call of `map`
* `RecursiveMap.source_defines_map` — **the source defines a function that maps**

## Design Notes

The inner function calls itself through the scope in which it was made, and that scope binds its
name only after it was made.  So what is kept from one element to the next is what can be seen from
there (`RecursiveMap.Sees`).  The calls in between change no old scope.

A call takes two levels more of the depth limit than the call before it.  What is said of the calls
of the function is said with the levels that are left for the last of them.
-/

namespace MonkeyLang

open Eval

/-! ### Calls in turn -/

/-- The call of a function on a value, at a place: an error that it hands out is an error of the
call. -/
def callOn (levels : Nat) (place : Option Location) (f x : Value) : Eval Value := do
  let v ← Evaluation.invoke (evaluate levels) place f [x]
  Eval.settle v

section CallOn

variable {levels levels' : Nat} {place : Option Location} {f x : Value} {m m' : Machine}
  {outcome : Outcome Value}

/-- A call takes no output back. -/
theorem outputBefore_of_callOn (h : callOn levels place f x m = (outcome, m')) :
    m.OutputBefore m' := by
  have hinvoke := Evaluation.related_invoke congruence_cutsShort
    (cutsShort_evaluate (Nat.le_refl levels)) place f [x]
  obtain rfl : (callOn levels place f x m).2 = m' := congrArg Prod.snd h
  exact (hinvoke.bind fun v => congruence_cutsShort.settle v).grows m

/-- A call keeps all scopes. -/
theorem kept_of_callOn (h : callOn levels place f x m = (outcome, m')) :
    m.scopes.Kept m'.scopes := by
  have hinvoke := Evaluation.keeps_invoke m.scopes levels place f [x]
  obtain rfl : (callOn levels place f x m).2 = m' := congrArg Prod.snd h
  exact (hinvoke.bind (fun v _ => sparesScopes_settle v _) m (.refl _)).2

/-- A call on data ends in data, in an error or at the depth limit, where nothing but data is bound.
Only what a host has stored ends a call with a value that is being returned. -/
theorem keepsData_callOn (levels : Nat) (place : Option Location) (f : Value) (hx : x.IsData) :
    CallKeepsData Value.IsData (callOn levels place f x) := by
  have harguments : ∀ v ∈ [x], v.IsData := by simpa using hx
  exact (Evaluation.keepsData_invoke (keepsData_evaluate levels) f harguments).bind fun _ hv =>
    keeps_settle hv

/-- With more levels, a call does the same unless it has reached the depth limit. -/
theorem callOn_of_levels_le (hlevels : levels ≤ levels')
    (h : callOn levels place f x m = (outcome, m')) (hdeep : outcome ≠ .tooDeep) :
    callOn levels' place f x m = (outcome, m') := by
  have hextends : Extends (callOn levels place f x) (callOn levels' place f x) :=
    (Evaluation.related_invoke congruence_extends (extends_evaluate hlevels) place f [x]).bind
      fun _ => .refl _
  rw [hextends m (by rwa [h]), h]

end CallOn

/-- **Calls in turn**: on each of the values from left to right, from the machine `m` on, each ends
in a value and writes a text.  Nothing happens before, between and behind the calls, except that
something may be set aside. -/
inductive CallsInTurn (call : Value → Eval Value) :
    List Value → Machine → List Value → List String → Machine → Prop
  | nil {m m' : Machine} (aside : m.SetsAside m') : CallsInTurn call [] m [] [] m'
  | cons {x v : Value} {xs vs : List Value} {text : String} {texts : List String}
      {m c d m' : Machine} (aside : m.SetsAside c) (called : call x c = (.value v, d))
      (written : d.output = c.output ++ text) (rest : CallsInTurn call xs d vs texts m') :
    CallsInTurn call (x :: xs) m (v :: vs) (text :: texts) m'

/-- The call on each of these values yields a value and writes a text, from every machine. -/
def CallsYield (call : Value → Eval Value) (yield : Value → Value) (text : Value → String)
    (xs : List Value) : Prop :=
  ∀ x ∈ xs, ∀ m, ∃ m', call x m = (.value (yield x), m') ∧ m'.output = m.output ++ text x

namespace CallsInTurn

variable {call : Value → Eval Value} {xs vs : List Value} {texts : List String} {m m' m'' : Machine}

theorem of_aside (aside : m.SetsAside m') (h : CallsInTurn call xs m' vs texts m'') :
    CallsInTurn call xs m vs texts m'' := by
  cases h with
  | nil aside' => exact .nil (aside.trans aside')
  | cons aside' called written rest => exact .cons (aside.trans aside') called written rest

/-- **The output is that of the calls**, one after the other. -/
theorem output_eq (h : CallsInTurn call xs m vs texts m') :
    m'.output = m.output ++ String.join texts := by
  induction h with
  | nil aside => rw [aside.output_eq, String.join_nil, String.append_empty]
  | cons aside called written rest ih =>
    rw [ih, written, aside.output_eq, String.join_cons, String.append_assoc]

theorem eq_map {yield : Value → Value} {text : Value → String}
    (hyields : CallsYield call yield text xs) (h : CallsInTurn call xs m vs texts m') :
    vs = xs.map yield ∧ texts = xs.map text := by
  induction h with
  | nil aside => exact ⟨rfl, rfl⟩
  | @cons x v xs vs _ texts _ c _ _ aside called written rest ih =>
    obtain ⟨rfl, rfl⟩ := ih fun y hy => hyields y (List.mem_cons_of_mem x hy)
    obtain ⟨d', hcall, htext⟩ := hyields x List.mem_cons_self c
    rw [called] at hcall
    cases hcall
    rw [written, String.append_right_inj] at htext
    exact ⟨rfl, congrArg (· :: xs.map text) htext⟩

end CallsInTurn

namespace RecursiveMap

/-! ### What the inner function sees -/

/-- The built-in functions that `map` uses. -/
def helpers : List Builtin := [.len, .first, .rest, .push]

/-- Seen from the scope, none of the names of these is bound. -/
def Unshadowed (s : Scopes Value) (scope : ScopeId) : Prop :=
  ∀ b ∈ helpers, s.lookup scope b.name = none

variable {t : Nat → Token} {f iter : Value} {made scope : ScopeId} {s s' : Scopes Value}

/-- The inner function, made in the scope `made`. -/
def iterFunction (t : Nat → Token) (number : ObjectId) (made : ScopeId) : Value :=
  .function number (iterParameters t) (iterBody t) made

/-- What is seen from the scope where the inner function was made: the function that is mapped, the
inner function itself, and the built-in functions. -/
structure Sees (f iter : Value) (s : Scopes Value) (scope : ScopeId) : Prop where
  lt_size : scope < s.size
  f_eq : s.lookup scope "f" = some f
  iter_eq : s.lookup scope "iter" = some iter
  unshadowed : Unshadowed s scope

theorem Sees.kept (h : Sees f iter s scope) (hkept : s.Kept s') : Sees f iter s' scope where
  lt_size := Nat.lt_of_lt_of_le h.lt_size hkept.size_le
  f_eq := by rw [hkept.lookup_eq h.lt_size, h.f_eq]
  iter_eq := by rw [hkept.lookup_eq h.lt_size, h.iter_eq]
  unshadowed b hb := by rw [hkept.lookup_eq h.lt_size, h.unshadowed b hb]

/-- What the body of the inner function sees from its own scope: its arguments as well. -/
structure SeesArguments (f iter arr accumulated : Value) (s : Scopes Value) (scope : ScopeId) :
    Prop extends Sees f iter s scope where
  arr_eq : s.lookup scope "arr" = some arr
  accumulated_eq : s.lookup scope "accumulated" = some accumulated

/-- The scope of a call of the inner function. -/
theorem Sees.frame (h : Sees f iter s made) (arr accumulated : Value) :
    SeesArguments f iter arr accumulated
      (s.create (some made) [("arr", arr), ("accumulated", accumulated)]) s.size := by
  have hlookup := Scopes.lookup_create s h.lt_size [("arr", arr), ("accumulated", accumulated)]
  constructor
  · constructor
    · rw [Scopes.size_create]
      exact Nat.lt_succ_self _
    · rw [hlookup, h.f_eq]
      rfl
    · rw [hlookup, h.iter_eq]
      rfl
    · intro b hb
      rw [hlookup, h.unshadowed b hb]
      simp only [helpers, List.mem_cons, List.not_mem_nil, or_false] at hb
      rcases hb with rfl | rfl | rfl | rfl <;> rfl
  · rw [hlookup]
    rfl
  · rw [hlookup]
    rfl

/-! ### The parts of the body -/

section Body

variable {number a b : ObjectId} {x : Value} {xs vs : List Value} {depth : Nat} {m : Machine}

/-- A built-in function on the array. -/
theorem evaluate_helper {accumulated : Value}
    (h : SeesArguments f iter (.array a xs) accumulated m.scopes scope) (helper : Builtin)
    (hhelper : helper ∈ helpers) (i j k : Nat) :
    evaluate (depth + 2) scope (.call (t k) (name t i helper.name) [name t j "arr"]) m =
      (helper.apply (t k).location [.array a xs] >>= settle) m :=
  evaluate_call (evaluate_builtin helper (h.unshadowed helper hhelper))
    (bind_value (evaluate_identifier h.arr_eq rfl) _)

/-- Whether an array is empty is told from its length, unless the length is too large for a word. -/
theorem length_eq_zero_iff (hlength : xs.length < Int64.size) :
    (Int64.ofNat xs.length == Int64.ofNat 0) = xs.isEmpty := by
  have hzero : Int64.ofNat xs.length = Int64.ofNat 0 ↔ xs.length = 0 := by
    rw [← Int64.toBitVec_inj, Int64.toBitVec_ofNat', Int64.toBitVec_ofNat', ← BitVec.toNat_inj,
      BitVec.toNat_ofNat, BitVec.toNat_ofNat, Nat.mod_eq_of_lt hlength, Nat.zero_mod]
  rw [Bool.eq_iff_iff, beq_iff_eq, hzero, List.isEmpty_iff, List.length_eq_zero_iff]

theorem evaluate_isEmpty {accumulated : Value}
    (h : SeesArguments f iter (.array a xs) accumulated m.scopes scope)
    (hlength : xs.length < Int64.size) :
    evaluate (depth + 3) scope (isEmpty t) m = (.value (.boolean xs.isEmpty), m) := by
  have hlen : evaluate (depth + 2) scope (.call (t 23) (name t 22 "len") [name t 24 "arr"]) m =
      (.value (.integer (Int64.ofNat xs.length)), m) :=
    evaluate_helper h .len (by simp [helpers]) 22 24 23
  have hzero : evaluate (depth + 2) scope (.integer (t 27) 0) m =
      (.value (.integer (Int64.ofNat 0)), m) := rfl
  refine (bind_value hlen _).trans ((bind_value hzero _).trans ?_)
  show (Outcome.value (Value.boolean (Int64.ofNat xs.length == Int64.ofNat 0)), m) = _
  rw [length_eq_zero_iff hlength]

/-- The call of the function on the first element. -/
theorem evaluate_turn {accumulated : Value}
    (h : SeesArguments f iter (.array a (x :: xs)) accumulated m.scopes scope)
    (hf : f.interrupt? = none) (hx : x.interrupt? = none) :
    evaluate (depth + 3) scope (turn t) m = callOn (depth + 2) (t 46).location f x m := by
  have hfirst : evaluate (depth + 2) scope (.call (t 48) (name t 47 "first") [name t 49 "arr"]) m =
      (.value x, m) := by
    refine (evaluate_helper h .first (by simp [helpers]) 47 49 48).trans ?_
    show (handOut (t 48).location x >>= settle) m = _
    rw [handOut_eq hx]
    show settle x m = _
    rw [settle_eq hx]
    rfl
  exact evaluate_call (evaluate_identifier h.f_eq hf) (bind_value hfirst _)

/-- What is done with the value of a call of the function: it is added to the accumulated values,
and the inner function goes on with the other elements. -/
def goOn (depth : Nat) (place : Option Location) (iter : Value) (vs : List Value)
    (others v : Value) : Eval Value := do
  let accumulated ← newArray (vs ++ [v])
  let result ← Evaluation.invoke (evaluate depth) place iter [others, accumulated]
  settle result

theorem takeReturned_goOn (place : Option Location) (others v : Value) :
    (goOn depth place iter vs others v).takeReturned id m =
      (Evaluation.invoke (evaluate depth) place iter
        [others, .array m.nextObject (vs ++ [v])] >>= settle).takeReturned id
          { m with nextObject := m.nextObject + 1 } := rfl

/-- The accumulated values with the value of the call of the function. -/
theorem evaluate_push
    (h : SeesArguments f iter (.array a (x :: xs)) (.array b vs) m.scopes scope)
    (hf : f.interrupt? = none) (hx : x.interrupt? = none) :
    evaluate (depth + 4) scope
        (.call (t 42) (name t 41 "push") [name t 43 "accumulated", turn t]) m =
      (callOn (depth + 2) (t 46).location f x >>= fun v => newArray (vs ++ [v])) m := by
  have hpush : evaluate (depth + 3) scope (name t 41 "push") m = (.value (.builtin .push), m) :=
    evaluate_builtin .push (h.unshadowed .push (by simp [helpers]))
  have haccumulated : evaluate (depth + 3) scope (name t 43 "accumulated") m =
      (.value (.array b vs), m) := evaluate_identifier h.accumulated_eq rfl
  rw [evaluate_call_pair hpush haccumulated]
  exact bind_apply_congr (evaluate_turn h hf hx) _

/-- The call of the function on the first element, and then all others. -/
theorem evaluate_next (h : SeesArguments f iter (.array a (x :: xs)) (.array b vs) m.scopes scope)
    (hf : f.interrupt? = none) (hx : x.interrupt? = none) (hiter : iter.interrupt? = none) :
    evaluate (depth + 5) scope (next t) m =
      (callOn (depth + 2) (t 46).location f x >>=
        goOn (depth + 4) (t 35).location iter vs (.array m.nextObject xs))
        { m with nextObject := m.nextObject + 1 } := by
  have hname : evaluate (depth + 4) scope (name t 34 "iter") m = (.value iter, m) :=
    evaluate_identifier h.iter_eq hiter
  have hrest : evaluate (depth + 4) scope (.call (t 37) (name t 36 "rest") [name t 38 "arr"]) m =
      (.value (.array m.nextObject xs), { m with nextObject := m.nextObject + 1 }) :=
    evaluate_helper h .rest (by simp [helpers]) 36 38 37
  have hpush : evaluate (depth + 4) scope
      (.call (t 42) (name t 41 "push") [name t 43 "accumulated", turn t])
      { m with nextObject := m.nextObject + 1 } =
        (callOn (depth + 2) (t 46).location f x >>= fun v => newArray (vs ++ [v]))
          { m with nextObject := m.nextObject + 1 } := evaluate_push h hf hx
  rw [next, evaluate_call_pair hname hrest, bind_apply_congr hpush, bind_assoc]
  rfl

/-- The machine with the scope of a call of the inner function. -/
def withFrame (m : Machine) (made : ScopeId) (arr accumulated : Value) : Machine :=
  { m with
    scopes := m.scopes.create (some made) [("arr", arr), ("accumulated", accumulated)] }

/-- A call of the inner function is the evaluation of its body with its arguments. -/
theorem invoke_iter (location : Option Location) (arr accumulated : Value) :
    Evaluation.invoke (evaluate depth) location (iterFunction t number made) [arr, accumulated] m =
      (Evaluation.block (evaluate depth) m.scopes.size (iterBody t)).takeReturned id
        (withFrame m made arr accumulated) :=
  Evaluation.invoke_function rfl location

/-- **Without an element** the inner function returns the accumulated values. -/
theorem invoke_iter_nil (h : Sees f (iterFunction t number made) m.scopes made)
    (location : Option Location) :
    Evaluation.invoke (evaluate (depth + 4)) location (iterFunction t number made)
        [.array a [], .array b vs] m =
      (.value (.array b vs), withFrame m made (.array a []) (.array b vs)) := by
  have hframe := h.frame (.array a []) (.array b vs)
  have hempty : evaluate (depth + 3) m.scopes.size (isEmpty t)
      (withFrame m made (.array a []) (.array b vs)) =
        (.value (.boolean true), withFrame m made (.array a []) (.array b vs)) :=
    evaluate_isEmpty hframe (show ([] : List Value).length < Int64.size by decide)
  rw [invoke_iter, iterBody, Evaluation.block_expression]
  refine takeReturned_value ((bind_value hempty _).trans ?_) id
  refine (congrFun (Evaluation.block_expression _) _).trans ?_
  exact evaluate_identifier hframe.accumulated_eq rfl

/-- **With an element** the inner function calls the function on it, and goes on with the others. -/
theorem invoke_iter_cons (h : Sees f (iterFunction t number made) m.scopes made)
    (hlength : (x :: xs).length < Int64.size) (hf : f.interrupt? = none) (hx : x.interrupt? = none)
    (location : Option Location) :
    Evaluation.invoke (evaluate (depth + 6)) location (iterFunction t number made)
        [.array a (x :: xs), .array b vs] m =
      (callOn (depth + 2) (t 46).location f x >>=
        goOn (depth + 4) (t 35).location (iterFunction t number made) vs
          (.array m.nextObject xs)).takeReturned id
        { withFrame m made (.array a (x :: xs)) (.array b vs) with
          nextObject := m.nextObject + 1 } := by
  have hframe := h.frame (.array a (x :: xs)) (.array b vs)
  have hempty : evaluate (depth + 5) m.scopes.size (isEmpty t)
      (withFrame m made (.array a (x :: xs)) (.array b vs)) =
        (.value (.boolean false), withFrame m made (.array a (x :: xs)) (.array b vs)) :=
    evaluate_isEmpty hframe hlength
  have hbody : Evaluation.block (evaluate (depth + 6)) m.scopes.size (iterBody t)
      (withFrame m made (.array a (x :: xs)) (.array b vs)) =
        (callOn (depth + 2) (t 46).location f x >>=
          goOn (depth + 4) (t 35).location (iterFunction t number made) vs
            (.array m.nextObject xs))
          { withFrame m made (.array a (x :: xs)) (.array b vs) with
            nextObject := m.nextObject + 1 } := by
    rw [iterBody, Evaluation.block_expression]
    refine (bind_value hempty _).trans ?_
    refine (congrFun (Evaluation.block_expression _) _).trans ?_
    exact evaluate_next hframe hf hx rfl
  rw [invoke_iter]
  exact takeReturned_congr hbody id

end Body

/-! ### All elements -/

/-- **What comes of mapping** a function over values, from the machine `m` on, behind the values
`done` of earlier calls.  If the calls in turn all end in values, it is an array of these, and the
output is theirs.  Otherwise the first call that does not is the last one.  If it ends in an error,
mapping ends in this error, with the machine that the call left.  Among data, nothing else than this
can come of it, below the depth limit (`keepsData_callOn`). -/
inductive Maps (call : Value → Eval Value) (done xs : List Value) (m : Machine)
    (ending : Outcome Value × Machine) : Prop
  | all {vs : List Value} {texts : List String} {m' : Machine}
      (calls : CallsInTurn call xs m vs texts m')
      (output : m'.output = m.output ++ String.join texts)
      (result : ∃ number, ending = (.value (.array number (done ++ vs)), m'))
  | upTo {before after vs : List Value} {x : Value} {texts : List String} {c m' : Machine}
      {outcome : Outcome Value} (elements : xs = before ++ x :: after)
      (calls : CallsInTurn call before m vs texts c) (last : call x c = (outcome, m'))
      (not_value : ∀ v, outcome ≠ .value v)
      (result : ∀ e, outcome = .interrupt (.error e) → ending = (.interrupt (.error e), m'))

namespace Maps

variable {call : Value → Eval Value} {done xs : List Value} {x v : Value} {m m₁ c d : Machine}
  {ending : Outcome Value × Machine}

theorem of_calls {vs : List Value} {texts : List String} {m' : Machine}
    (calls : CallsInTurn call xs m vs texts m')
    (result : ∃ number, ending = (.value (.array number (done ++ vs)), m')) :
    Maps call done xs m ending :=
  .all calls calls.output_eq result

theorem of_aside (aside : m.SetsAside m₁) (h : Maps call done xs m₁ ending) :
    Maps call done xs m ending := by
  cases h with
  | all calls output result => exact of_calls (calls.of_aside aside) result
  | upTo elements calls last not_value result =>
    exact .upTo elements (calls.of_aside aside) last not_value result

/-- A call that ends in a value comes before the others. -/
theorem cons (aside : m.SetsAside c) (called : call x c = (.value v, d))
    (grows : c.OutputBefore d) (h : Maps call (done ++ [v]) xs d ending) :
    Maps call done (x :: xs) m ending := by
  obtain ⟨text, written⟩ := grows
  cases h with
  | all calls output result =>
    rw [List.append_assoc, List.singleton_append] at result
    exact of_calls (.cons aside called written calls) result
  | upTo elements calls last not_value result =>
    refine .upTo (congrArg (x :: ·) elements) (.cons aside called written calls) last not_value
      result

/-- A call that does not end in a value is the last one. -/
theorem stop {outcome : Outcome Value} (aside : m.SetsAside c) (called : call x c = (outcome, d))
    (not_value : ∀ v, outcome ≠ .value v)
    (result : ∀ e, outcome = .interrupt (.error e) → ending = (.interrupt (.error e), d)) :
    Maps call done (x :: xs) m ending :=
  .upTo (show x :: xs = [] ++ x :: xs from rfl) (.nil aside) called not_value result

/-- Where every call yields a value, mapping yields the array of them, and writes all texts. -/
theorem result_of_yields {yield : Value → Value} {text : Value → String}
    (hyields : CallsYield call yield text xs) (h : Maps call done xs m ending) :
    ∃ number m', ending = (.value (.array number (done ++ xs.map yield)), m') ∧
      m'.output = m.output ++ String.join (xs.map text) := by
  cases h with
  | all calls output result =>
    obtain ⟨number, hnumber⟩ := result
    obtain ⟨rfl, rfl⟩ := calls.eq_map hyields
    exact ⟨number, _, hnumber, output⟩
  | @upTo before after _ x _ c _ _ elements calls last not_value result =>
    have hmem : x ∈ xs := by
      rw [elements]
      exact List.mem_append_right before List.mem_cons_self
    obtain ⟨d, hcall, -⟩ := hyields x hmem c
    rw [last] at hcall
    cases hcall
    exact absurd rfl (not_value _)

/-- What comes of mapping passes through a call whose last expression it is. -/
theorem settle_takeReturned {mapping : Eval Value} (h : Maps call done xs m (mapping m₁)) :
    Maps call done xs m ((mapping >>= settle).takeReturned id m₁) := by
  cases h with
  | all calls output result =>
    obtain ⟨number, hnumber⟩ := result
    exact of_calls calls ⟨number, takeReturned_value (bind_value hnumber _) id⟩
  | upTo elements calls last not_value result =>
    exact .upTo elements calls last not_value fun e he =>
      takeReturned_interrupt (bind_interrupt (result e he) _) id

end Maps

section Mapping

variable {levels depth : Nat} {location : Option Location}

/-- **The inner function maps**, and puts what comes of the elements behind the accumulated
values. -/
theorem maps_iter {number : ObjectId} (hf : f.interrupt? = none) (xs : List Value) :
    ∀ {a b : ObjectId} {vs : List Value} {m : Machine} {location : Option Location} {depth : Nat},
      xs.length < Int64.size → (∀ x ∈ xs, x.interrupt? = none) →
      levels + 2 * xs.length + 4 ≤ depth → Sees f (iterFunction t number made) m.scopes made →
      Maps (callOn levels (t 46).location f) vs xs m
        (Evaluation.invoke (evaluate depth) location (iterFunction t number made)
          [.array a xs, .array b vs] m) := by
  induction xs with
  | nil =>
    intro a b vs m location depth _ _ hdepth hsees
    obtain ⟨depth, rfl⟩ := Nat.exists_eq_add_of_le' (Nat.le_of_add_left_le hdepth)
    have haside : m.SetsAside (withFrame m made (.array a []) (.array b vs)) :=
      (Machine.SetsAside.refl m).newScope _ _
    refine .of_calls (.nil haside) ⟨b, ?_⟩
    rw [List.append_nil]
    exact invoke_iter_nil hsees location
  | cons x xs ih =>
    intro a b vs m location depth hlength hxs hdepth hsees
    rw [List.length_cons] at hlength hdepth
    obtain ⟨depth, rfl⟩ := Nat.exists_eq_add_of_le' (show 6 ≤ depth by omega)
    rw [invoke_iter_cons hsees hlength hf (hxs x List.mem_cons_self) location]
    have haside : m.SetsAside { withFrame m made (.array a (x :: xs)) (.array b vs) with
        nextObject := m.nextObject + 1 } :=
      ((Machine.SetsAside.refl m).newScope _ _).newObject
    -- Of the machine on which the function is called, nothing else matters.
    revert haside
    generalize { withFrame m made (.array a (x :: xs)) (.array b vs) with
        nextObject := m.nextObject + 1 } = c
    intro haside
    cases hcall : callOn levels (t 46).location f x c with
    | mk outcome d =>
      have hdeeper (h : outcome ≠ .tooDeep) :
          callOn (depth + 2) (t 46).location f x c = (outcome, d) :=
        callOn_of_levels_le (by omega) hcall h
      cases outcome with
      | value v =>
        have hkept : m.scopes.Kept d.scopes := haside.scopes.trans (kept_of_callOn hcall)
        rw [takeReturned_congr (bind_value (hdeeper nofun) _) id, takeReturned_goOn]
        refine .cons haside hcall (outputBefore_of_callOn hcall) ?_
        refine .of_aside (Machine.SetsAside.refl d).newObject ?_
        refine .settle_takeReturned (ih (by omega) ?_ (by omega) ?_)
        · exact fun y hy => hxs y (List.mem_cons_of_mem x hy)
        · exact hsees.kept hkept
      | interrupt i =>
        refine .stop haside hcall nofun ?_
        rintro e ⟨⟩
        exact takeReturned_interrupt (bind_interrupt (hdeeper nofun) _) id
      | tooDeep =>
        refine .stop haside hcall nofun fun e he => ?_
        cases he

/-! ### The function `map` -/

variable {number array : ObjectId} {home : ScopeId} {xs : List Value} {m : Machine}

/-- `map`, made in the scope `home`. -/
def mapFunction (t : Nat → Token) (number : ObjectId) (home : ScopeId) : Value :=
  .function number (mapParameters t) (mapBody t) home

/-- The scopes of the body of `map`, with the inner function. -/
def mapScopes (s : Scopes Value) (home : ScopeId) (arr f iter : Value) : Scopes Value :=
  (s.create (some home) [("arr", arr), ("f", f)]).bind s.size "iter" iter

/-- The inner function sees itself, although it is bound only after it was made. -/
theorem sees_mapScopes (hhome : home < s.size) (h : Unshadowed s home) (arr f iter : Value) :
    Sees f iter (mapScopes s home arr f iter) s.size := by
  have hlookup := Scopes.lookup_create_bind s hhome [("arr", arr), ("f", f)] "iter" iter
  constructor
  · rw [mapScopes, Scopes.size_bind, Scopes.size_create]
    exact Nat.lt_succ_self _
  · rw [mapScopes, hlookup]
    rfl
  · rw [mapScopes, hlookup]
    rfl
  · intro b hb
    rw [mapScopes, hlookup, h b hb]
    simp only [helpers, List.mem_cons, List.not_mem_nil, or_false] at hb
    rcases hb with rfl | rfl | rfl | rfl <;> rfl

/-- A call of `map` makes the inner function, and then calls it with no accumulated values. -/
theorem invoke_map (hhome : home < m.scopes.size) (h : Unshadowed m.scopes home)
    (location : Option Location) :
    let iter := iterFunction t m.nextObject m.scopes.size
    Evaluation.invoke (evaluate (depth + 2)) location (mapFunction t number home)
        [.array array xs, f] m =
      (Evaluation.invoke (evaluate (depth + 1)) (t 59).location iter
        [.array array xs, .array (m.nextObject + 1) []] >>= settle).takeReturned id
        { m with
          scopes := mapScopes m.scopes home (.array array xs) f iter
          nextObject := m.nextObject + 2 } := by
  intro iter
  have hsees := sees_mapScopes hhome h (.array array xs) f iter
  have harr : (mapScopes m.scopes home (.array array xs) f iter).lookup m.scopes.size "arr" =
      some (.array array xs) := by
    rw [mapScopes, Scopes.lookup_create_bind m.scopes hhome]
    rfl
  let framed : Machine :=
    { m with scopes := m.scopes.create (some home) [("arr", .array array xs), ("f", f)] }
  let bound : Machine :=
    { m with
      scopes := mapScopes m.scopes home (.array array xs) f iter
      nextObject := m.nextObject + 1 }
  have hlet : Evaluation.statement (evaluate (depth + 2)) m.scopes.size
      (.let_ (t 10) ⟨t 11, "iter"⟩ (.function (t 13) (iterParameters t) (iterBody t))) framed =
        (.value none, bound) := rfl
  have hiter : evaluate (depth + 1) m.scopes.size (name t 58 "iter") bound = (.value iter, bound) :=
    evaluate_identifier hsees.iter_eq rfl
  have harguments : Evaluation.operands (evaluate (depth + 1)) m.scopes.size
      [name t 60 "arr", .array (t 62) []] bound =
        (.value [.array array xs, .array (m.nextObject + 1) []],
          { bound with nextObject := m.nextObject + 2 }) :=
    bind_value (evaluate_identifier harr rfl) _
  have hbody : Evaluation.block (evaluate (depth + 2)) m.scopes.size (mapBody t) framed =
      (Evaluation.invoke (evaluate (depth + 1)) (t 59).location iter
        [.array array xs, .array (m.nextObject + 1) []] >>= settle)
        { bound with nextObject := m.nextObject + 2 } := by
    refine (Evaluation.block_cons hlet).trans ?_
    rw [Evaluation.block_expression]
    exact evaluate_call hiter harguments
  exact (Evaluation.invoke_function rfl location).trans (takeReturned_congr hbody id)

/-- **A call of `map` maps.** -/
theorem maps_map (hhome : home < m.scopes.size) (h : Unshadowed m.scopes home)
    (hlength : xs.length < Int64.size) (hxs : ∀ x ∈ xs, x.interrupt? = none)
    (hf : f.interrupt? = none) (hdepth : levels + 2 * xs.length + 5 ≤ depth)
    (location : Option Location) :
    Maps (callOn levels (t 46).location f) [] xs m
      (Evaluation.invoke (evaluate depth) location (mapFunction t number home)
        [.array array xs, f] m) := by
  obtain ⟨depth, rfl⟩ := Nat.exists_eq_add_of_le' (show 2 ≤ depth by omega)
  have hsees := sees_mapScopes hhome h (.array array xs) f
    (iterFunction t m.nextObject m.scopes.size)
  have haside : m.SetsAside { m with
      scopes := mapScopes m.scopes home (.array array xs) f
        (iterFunction t m.nextObject m.scopes.size)
      nextObject := m.nextObject + 2 } :=
    (((Machine.SetsAside.refl m).newScope _ _).bindName (Nat.le_refl _) _ _).newObject.newObject
  rw [invoke_map hhome h]
  exact .of_aside haside (Maps.settle_takeReturned
    (maps_iter hf xs hlength hxs (by omega) hsees))

end Mapping

/-! ### The source -/

/-- A run of the source makes a function and binds it. -/
theorem runSource_source (start : Option Location) (home : ScopeId) (m : Machine) {limit : Nat}
    (hlimit : 0 < limit) :
    runSource source start home m limit =
      (.ok none, { m with
        scopes := m.scopes.bind home "map" (mapFunction (token start) m.nextObject home)
        nextObject := m.nextObject + 1 }) := by
  obtain ⟨limit, rfl⟩ := Nat.exists_eq_succ_of_ne_zero hlimit.ne'
  rw [runSource, readProgram_source]
  rfl

/-- **The source defines a function that maps.**  Run in any scope, within any limit but zero, it
binds `map` there.  Whenever `map` is called with an array and a function, on whatever machine, the
function is called on one element after the other, and `Maps` says what comes of that.

The names of the built-in functions that the source uses must not be bound around it.  No element is
an error or a value that is being returned, and neither is what is in the place of the function; it
need not be a function.  The depth limit leaves two levels for each element, besides the levels of
the calls.  An array with as many elements as there are integers would count as empty. -/
theorem source_defines_map (start : Option Location) (home : ScopeId) (m₀ : Machine)
    (hhome : home < m₀.scopes.size) :
    ∃ map m₁, ∃ t ∈ (lex source start).tokens,
      (∀ limit, 0 < limit → runSource source start home m₀ limit = (.ok none, m₁)) ∧
      m₁.scopes.lookup home "map" = some map ∧
      ∀ (m : Machine) (location : Option Location) (array : ObjectId) (xs : List Value) (f : Value)
        (levels depth : Nat), home < m.scopes.size → Unshadowed m.scopes home →
        xs.length < Int64.size → (∀ x ∈ xs, x.interrupt? = none) → f.interrupt? = none →
        levels + 2 * xs.length + 5 ≤ depth →
        Maps (callOn levels t.location f) [] xs m
          (Evaluation.invoke (evaluate depth) location map [.array array xs, f] m) := by
  refine ⟨mapFunction (token start) m₀.nextObject home, _, token start 46,
    token_mem start (by decide), fun _ => runSource_source start home m₀, ?_, ?_⟩
  · rw [Scopes.lookup_eq, Scopes.find?_bind, if_pos ⟨rfl, hhome, rfl⟩, Option.some_or]
  · intro m location array xs f levels depth hm hunshadowed hlength hxs hf hdepth
    exact maps_map hm hunshadowed hlength hxs hf hdepth location

/-- `map([1, 2], puts)` writes both lines and yields an array of two nulls. -/
theorem source_defines_map_puts :
    ∃ map m₁ number m', runSource source none 0 Machine.fresh 1 = (.ok none, m₁) ∧
      m₁.scopes.lookup 0 "map" = some map ∧
      Evaluation.invoke (evaluate 9) none map
        [.array 0 [.integer 1, .integer 2], .builtin .puts] Machine.fresh =
          (.value (.array number [.null, .null]), m') ∧
      m'.output = "1\n2\n" := by
  obtain ⟨map, m₁, t, -, hrun, hlookup, hmaps⟩ :=
    source_defines_map none 0 Machine.fresh (by decide)
  have hputs : CallsYield (callOn 0 t.location (.builtin .puts)) (fun _ => .null)
      (fun v => v.render ++ "\n") [.integer 1, .integer 2] := fun _ _ _ => ⟨_, rfl, rfl⟩
  obtain ⟨number, m', hresult, houtput⟩ :=
    (hmaps Machine.fresh none 0 [.integer 1, .integer 2] (.builtin .puts) 0 9 (by decide)
      (fun _ _ => rfl) (by decide) (by simp [Value.interrupt?]) rfl
      (by decide)).result_of_yields hputs
  exact ⟨map, m₁, number, m', hrun 1 (by decide), hlookup, hresult, houtput.trans (by decide)⟩

end RecursiveMap

end MonkeyLang
