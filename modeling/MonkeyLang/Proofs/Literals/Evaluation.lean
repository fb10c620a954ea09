import MonkeyLang.Proofs.EvalRules
import MonkeyLang.Proofs.FunctionBody
import MonkeyLang.Proofs.Literals

/-!
# Values that are read back

A plain value is printed as a program, and the program evaluates to the value again.

## Main Definitions

* `Value.levels` — how deeply the evaluations of the literal nest
* `Eval.Delivers` — the evaluation yields a good value, or reaches the depth limit, and makes some
  objects on its way
* `Value.IsRebuilt` — every tree that is the literal of the value evaluates to its contents

## Main Statements

* `Value.IsPlain.isRebuilt` — the literal evaluates to the contents of the value
* `runSource_renderValue` — **the text of a plain value** is run, and the value is back

## Design Notes

What the literal yields has new numbers, so it is compared by contents.  The only change to the
machine is that numbers are taken, and how many does not matter.

The literal reaches the depth limit exactly when its levels do not fit, so the levels are said
exactly and are not just a bound.
-/

namespace MonkeyLang

variable {v : Value}

/-! ### Levels -/

namespace Value

mutual

/-- How deeply evaluations nest when the literal of the value is evaluated. -/
def levels : Value → Nat
  | .integer n => match n.toInt with
    | .ofNat _ => 1
    | .negSucc _ => 2
  | .array _ elements => levelsAll elements + 1
  | .hash _ entries => levelsEntries entries + 1
  | _ => 1
termination_by structural v => v

/-- The most levels that any of the values takes. -/
def levelsAll : List Value → Nat
  | [] => 0
  | v :: vs => max v.levels (levelsAll vs)
termination_by structural vs => vs

/-- The most levels that any key or item takes. -/
def levelsEntries : List (HashKey × (Value × Value)) → Nat
  | [] => 0
  | (_, (key, item)) :: entries => max key.levels (max item.levels (levelsEntries entries))
termination_by structural entries => entries

end

theorem levels_pos (v : Value) : 0 < v.levels := by
  cases v with
  | integer n =>
    rw [levels]
    cases n.toInt <;> exact Nat.succ_pos _
  | _ => exact Nat.succ_pos _

end Value

/-! ### Evaluations that only make objects -/

namespace Eval

variable {α β : Type} {x : Eval α} {fits fits' : Prop} {good : α → Prop} {good' : β → Prop}

/-- **The evaluation yields a good value if it fits, and reaches the depth limit if not.**  All that
it does to the machine is to make objects. -/
def Delivers (x : Eval α) (fits : Prop) (good : α → Prop) : Prop :=
  ∀ m : Machine, ∃ number ≥ m.nextObject,
    (fits → ∃ a, x m = (.value a, { m with nextObject := number }) ∧ good a) ∧
      (¬fits → x m = (.tooDeep, { m with nextObject := number }))

namespace Delivers

theorem pure {a : α} (hfits : fits) (h : good a) : Delivers (Pure.pure a) fits good :=
  fun m => ⟨m.nextObject, Nat.le_refl _, fun _ => ⟨a, rfl, h⟩, fun hnot => absurd hfits hnot⟩

theorem newObject : Delivers newObject True fun _ => True :=
  fun m => ⟨m.nextObject + 1, Nat.le_succ _, fun _ => ⟨_, rfl, trivial⟩,
    fun hfits => absurd trivial hfits⟩

/-- What reaches the limit at once fits nowhere. -/
theorem tooDeep (hfits : ¬fits) : Delivers (Eval.tooDeep : Eval α) fits good :=
  fun m => ⟨m.nextObject, Nat.le_refl _, fun h => absurd h hfits, fun _ => rfl⟩

theorem congr_fits (h : Delivers x fits good) (hfits : fits ↔ fits') : Delivers x fits' good :=
  propext hfits ▸ h

/-- **The rule for sequences**: both parts have to fit. -/
theorem bind {f : α → Eval β} (hx : Delivers x fits good)
    (hf : ∀ a, good a → Delivers (f a) fits' good') : Delivers (x >>= f) (fits ∧ fits') good' := by
  intro m
  obtain ⟨number, hnumber, hvalue, hdeep⟩ := hx m
  by_cases hfits : fits
  · obtain ⟨a, ha, hgood⟩ := hvalue hfits
    obtain ⟨number', hnumber', hvalue', hdeep'⟩ := hf a hgood { m with nextObject := number }
    rw [bind_value ha]
    exact ⟨number', Nat.le_trans hnumber hnumber', fun h => hvalue' h.2,
      fun h => hdeep' fun hfits' => h ⟨hfits, hfits'⟩⟩
  · exact ⟨number, hnumber, fun h => absurd h.1 hfits, fun _ => bind_tooDeep (hdeep hfits) f⟩

end Delivers

end Eval

open Eval

/-! ### Evaluation -/

namespace Value

/-- **The value is rebuilt from its literal**: every tree that is the literal up to marks evaluates
to its contents, if the levels fit into the depth, and reaches the depth limit if not. -/
def IsRebuilt (v : Value) : Prop :=
  ∀ e : Expr Token, e.erase = v.literal → ∀ (depth : Nat) (scope : ScopeId),
    Delivers (evaluate depth scope e) (v.levels ≤ depth) fun w => w.contents = v.contents

variable {depth : Nat} {scope : ScopeId} {e : Expr Token}

/-- Some level is needed, and the others are needed by what is inside. -/
theorem delivers_evaluate
    (h : ∀ depth, Delivers (Evaluation.step (evaluate depth) scope e) (v.levels ≤ depth + 1)
      fun w => w.contents = v.contents) :
    Delivers (evaluate depth scope e) (v.levels ≤ depth) fun w => w.contents = v.contents := by
  cases depth with
  | zero => exact .tooDeep (Nat.not_le_of_gt v.levels_pos)
  | succ depth => exact h depth

/-- **Rebuilt elements.** -/
theorem delivers_operands : (vs : List Value) → (∀ v ∈ vs, v.IsRebuilt) → ∀ es : List (Expr Token),
    mapExprs (fun _ => ()) es = literals vs →
      Delivers (Evaluation.operands (evaluate depth) scope es) (levelsAll vs ≤ depth)
        fun ws => contentsAll ws = contentsAll vs
  | [], _, [], _ => .pure (Nat.zero_le _) rfl
  | [], _, _ :: _, hes => by cases hes
  | _ :: _, _, [], hes => by cases hes
  | v :: vs, hvs, e :: es, hes => by
    obtain ⟨hv, hvs⟩ := List.forall_mem_cons.1 hvs
    obtain ⟨he, hes⟩ := List.cons.inj hes
    have hall : Delivers (Evaluation.operands (evaluate depth) scope (e :: es))
        (v.levels ≤ depth ∧ levelsAll vs ≤ depth ∧ True)
        fun ws => contentsAll ws = contentsAll (v :: vs) := by
      refine (hv e he depth scope).bind fun w hw => ?_
      refine (delivers_operands vs hvs es hes).bind fun ws hws => .pure trivial ?_
      rw [contentsAll, contentsAll, hw, hws]
    exact hall.congr_fits (by rw [levelsAll, Nat.max_le, and_true])

/-- **Rebuilt pairs.**  Each key reaches the slot that it had.  No slot is in use yet, so every pair
goes behind those that are stored already. -/
theorem delivers_entries : (entries : Entries) →
    (∀ entry ∈ entries, entry.2.1.hashKey? = some entry.1) →
    (∀ entry ∈ entries, entry.2.1.IsRebuilt) → (∀ entry ∈ entries, entry.2.2.IsRebuilt) →
    ∀ (stored : Entries) (pairs : List (Expr Token × Expr Token)),
      (OrderedMap.keys stored ++ OrderedMap.keys entries).Nodup →
      mapPairs (fun _ => ()) pairs = literalPairs entries →
      Delivers (Evaluation.entries (evaluate depth) scope stored pairs)
        (levelsEntries entries ≤ depth)
        fun all => contentsEntries all = contentsEntries stored ++ contentsEntries entries
  | [], _, _, _, _, [], _, _ => .pure (Nat.zero_le _) (List.append_nil _).symm
  | [], _, _, _, _, _ :: _, _, hpairs => by cases hpairs
  | _ :: _, _, _, _, _, [], _, hpairs => by cases hpairs
  | (slot, (key, item)) :: entries, hslots, hkeys, hitems, stored, (k, i) :: pairs, hdistinct,
      hpairs => by
    obtain ⟨hslot, hslots⟩ := List.forall_mem_cons.1 hslots
    obtain ⟨hkey, hkeys⟩ := List.forall_mem_cons.1 hkeys
    obtain ⟨hitem, hitems⟩ := List.forall_mem_cons.1 hitems
    obtain ⟨hpair, hpairs⟩ := List.cons.inj hpairs
    obtain ⟨hk, hi⟩ := Prod.mk.inj hpair
    have hfresh : slot ∉ OrderedMap.keys stored := fun hmem =>
      (List.nodup_append.1 hdistinct).2.2 slot hmem slot List.mem_cons_self rfl
    have hall : Delivers (Evaluation.entries (evaluate depth) scope stored ((k, i) :: pairs))
        (key.levels ≤ depth ∧ item.levels ≤ depth ∧ levelsEntries entries ≤ depth)
        fun all => contentsEntries all =
          contentsEntries stored ++ contentsEntries ((slot, (key, item)) :: entries) := by
      refine (hkey k hk depth scope).bind fun key' hkey' => ?_
      rw [hashKey?_eq_of_contents_eq hkey', hslot]
      refine (hitem i hi depth scope).bind fun item' hitem' => ?_
      rw [OrderedMap.insert_of_notMem hfresh]
      have hdistinct' : (OrderedMap.keys (stored ++ [(slot, (key', item'))]) ++
          OrderedMap.keys entries).Nodup := by
        simpa [OrderedMap.keys] using hdistinct
      have hstored : contentsEntries (stored ++ [(slot, (key', item'))]) =
          contentsEntries stored ++ [(slot, (key.contents, item.contents))] := by
        rw [contentsEntries_append, ← hkey', ← hitem']
        rfl
      have hrest := delivers_entries entries hslots hkeys hitems _ pairs hdistinct' hpairs
      rw [hstored, List.append_assoc] at hrest
      exact hrest
    exact hall.congr_fits (by rw [levelsEntries, Nat.max_le, Nat.max_le])

theorem isRebuilt_boolean (b : Bool) : (boolean b).IsRebuilt := by
  intro e he depth scope
  obtain ⟨t, rfl⟩ := Expr.exists_of_map_eq_boolean he
  exact delivers_evaluate fun depth => .pure (Nat.succ_pos _) rfl

/-- An integer that is not negative is its own literal. -/
theorem isRebuilt_ofNat {n : Int64} {k : Nat} (h : n.toInt = .ofNat k) :
    (integer n).IsRebuilt := by
  intro e he depth scope
  rw [literal, h] at he
  obtain ⟨t, rfl⟩ := Expr.exists_of_map_eq_integer he
  have hn : Int64.ofNat k = n := by
    rw [← Int64.ofInt_toInt n, h]
    rfl
  refine delivers_evaluate fun depth => ?_
  exact .pure (by rw [levels, h]; exact Nat.succ_pos _) (by rw [hn])

/-- The sign of a negative integer is an operator, whose operand is one level further in. -/
theorem isRebuilt_negSucc {n : Int64} {k : Nat} (h : n.toInt = .negSucc k) :
    (integer n).IsRebuilt := by
  intro e he depth scope
  rw [literal, h] at he
  obtain ⟨t, operand, rfl, hoperand⟩ := Expr.exists_of_map_eq_unary he
  obtain ⟨t', rfl⟩ := Expr.exists_of_map_eq_integer hoperand
  have hn : -Int64.ofNat (k + 1) = n := by
    rw [← Int64.ofInt_toInt n, h, ← Int64.ofInt_eq_ofNat, ← Int64.ofInt_neg]
    rfl
  refine delivers_evaluate fun depth => ?_
  have hinside : Delivers (evaluate depth scope (.integer t' (k + 1))) (1 ≤ depth)
      fun w => w = .integer (Int64.ofNat (k + 1)) := by
    cases depth with
    | zero => exact .tooDeep (Nat.not_succ_le_zero 0)
    | succ depth => exact .pure (Nat.succ_pos _) rfl
  have hall : Delivers (Evaluation.step (evaluate depth) scope
      (.unary t .negate (.integer t' (k + 1)))) (1 ≤ depth ∧ True)
      fun w => w.contents = (Value.integer n).contents := by
    refine hinside.bind fun w hw => ?_
    rw [hw]
    exact .pure trivial (congrArg Value.integer hn)
  exact hall.congr_fits (by rw [levels, h, and_true, Nat.succ_le_succ_iff])

/-- An array is rebuilt with a number of its own, which contents leave out. -/
theorem isRebuilt_array {id : ObjectId} {elements : List Value}
    (h : ∀ v ∈ elements, v.IsRebuilt) : (array id elements).IsRebuilt := by
  intro e he depth scope
  obtain ⟨t, es, rfl, hes⟩ := Expr.exists_of_map_eq_array he
  refine delivers_evaluate fun depth => ?_
  have hall : Delivers (Evaluation.step (evaluate depth) scope (.array t es))
      (levelsAll elements ≤ depth ∧ True ∧ True)
      fun w => w.contents = (Value.array id elements).contents := by
    refine (delivers_operands elements h es hes).bind fun ws hws => ?_
    refine Delivers.newObject.bind fun number _ => .pure trivial ?_
    rw [contents, contents, hws]
  exact hall.congr_fits (by simp [levels])

/-- So is a hash, whose slots are distinct and those of its keys. -/
theorem isRebuilt_hash {id : ObjectId} {entries : Entries}
    (hdistinct : (OrderedMap.keys entries).Nodup)
    (hslots : ∀ entry ∈ entries, entry.2.1.hashKey? = some entry.1)
    (hkeys : ∀ entry ∈ entries, entry.2.1.IsRebuilt)
    (hitems : ∀ entry ∈ entries, entry.2.2.IsRebuilt) : (hash id entries).IsRebuilt := by
  intro e he depth scope
  obtain ⟨t, pairs, rfl, hpairs⟩ := Expr.exists_of_map_eq_hash he
  refine delivers_evaluate fun depth => ?_
  have hall : Delivers (Evaluation.step (evaluate depth) scope (.hash t pairs))
      (levelsEntries entries ≤ depth ∧ True ∧ True)
      fun w => w.contents = (Value.hash id entries).contents := by
    refine (delivers_entries entries hslots hkeys hitems [] pairs hdistinct hpairs).bind
      fun all hentries => ?_
    refine Delivers.newObject.bind fun number _ => .pure trivial ?_
    rw [contents, contents, hentries]
    rfl
  exact hall.congr_fits (by simp [levels])

/-- **A plain value is rebuilt from its literal.** -/
theorem IsPlain.isRebuilt (hv : v.IsPlain) : v.IsRebuilt := by
  induction hv with
  | boolean b => exact isRebuilt_boolean b
  | @integer n _ =>
    cases h : n.toInt with
    | ofNat k => exact isRebuilt_ofNat h
    | negSucc k => exact isRebuilt_negSucc h
  | array _ ih => exact isRebuilt_array ih
  | hash distinct slots _ _ ihkeys ihitems => exact isRebuilt_hash distinct slots ihkeys ihitems

end Value

/-! ### Sources -/

/-- **A value is read back from its text.**  Take a plain value, nested to any depth: an integer
other than the least one, a boolean, an array, or a hash with such keys.  Its text is read without
errors, wherever it begins.  Under every limit that allows for its levels, it yields a value that is
equal to the first one, with the pairs of every hash in the same order; under every other limit, the
error of the depth limit.  The machine stays as it is, but for the objects that were made. -/
theorem runSource_renderValue (hv : v.IsPlain) (start : Option Location) :
    (∃ program, parse v.render start = .ok ⟨program, []⟩) ∧
      ∀ (limit : Nat) (scope : ScopeId) (m : Machine), ∃ number ≥ m.nextObject,
        let run := runSource v.render start scope m limit
        run.2 = { m with nextObject := number } ∧
          (v.levels ≤ limit →
            ∃ w, run.1 = .ok (some w) ∧ w.equal v = true ∧ w.contents = v.contents) ∧
          (limit < v.levels → run.1 = .ok (some (.error { fault := .tooDeep }))) := by
  obtain ⟨t, e, hparse, herase⟩ := parse_renderValue hv start
  refine ⟨⟨_, hparse⟩, fun limit scope m => ?_⟩
  obtain ⟨number, hnumber, hvalue, hdeep⟩ := hv.isRebuilt e herase limit scope m
  refine ⟨number, hnumber, ?_⟩
  rw [runSource_of_readProgram (readProgram_eq_ok_iff.2 hparse)]
  by_cases hlevels : v.levels ≤ limit
  · obtain ⟨w, hw, hcontents⟩ := hvalue hlevels
    have hrun : runProgram limit scope [.expression t e] m =
        (.value (some w), { m with nextObject := number }) :=
      (runProgram_expression limit scope t e m).trans (takeReturned_value (bind_value hw _) some)
    have hequal := Value.equal_of_contents_eq hv w hcontents
    rw [hrun]
    exact ⟨rfl, fun _ => ⟨w, rfl, hequal, hcontents⟩, fun h => absurd hlevels (Nat.not_le_of_gt h)⟩
  · have hrun : runProgram limit scope [.expression t e] m =
        (.tooDeep, { m with nextObject := number }) :=
      (runProgram_expression limit scope t e m).trans
        (takeReturned_congr (y := Eval.tooDeep) (bind_tooDeep (hdeep hlevels) _) some)
    rw [hrun]
    exact ⟨rfl, fun h => absurd h hlevels, fun _ => rfl⟩

/-- Negative integers are elements, keys and items, and a hash is an item of a hash. -/
theorem runSource_renderValue_nested :
    let inner : Value := .hash 2 [(⟨.integer, 1⟩, (.integer 1, .integer (-8)))]
    let outer : Value := .hash 5 [(⟨.boolean, 1⟩, (.boolean true, .array 3 [])),
      (⟨.integer, -3⟩, (.integer (-3), inner))]
    let v : Value := .array 7 [.integer (-1), outer]
    v.render = "[-1, \x7btrue: [], -3: \x7b1: -8\x7d\x7d]" ∧ v.IsPlain ∧
      ∃ w, (runSource v.render none 0 Machine.fresh 9).1 = .ok (some w) ∧ w.equal v = true ∧
        w.contents = v.contents := by
  intro inner outer v
  have hempty : (Value.array 3 []).IsPlain := .array nofun
  have hinner : inner.IsPlain :=
    .hash (by decide) (List.forall_mem_singleton.2 rfl)
      (List.forall_mem_singleton.2 (.integer (by decide)))
      (List.forall_mem_singleton.2 (.integer (by decide)))
  have houter : outer.IsPlain :=
    .hash (by decide) (List.forall_mem_cons.2 ⟨rfl, List.forall_mem_singleton.2 rfl⟩)
      (List.forall_mem_cons.2 ⟨.boolean true, List.forall_mem_singleton.2 (.integer (by decide))⟩)
      (List.forall_mem_cons.2 ⟨hempty, List.forall_mem_singleton.2 hinner⟩)
  have hv : v.IsPlain :=
    .array (List.forall_mem_cons.2 ⟨.integer (by decide), List.forall_mem_singleton.2 houter⟩)
  obtain ⟨number, -, -, hvalue, -⟩ := (runSource_renderValue hv none).2 9 0 Machine.fresh
  exact ⟨rfl, hv, hvalue (by decide)⟩

end MonkeyLang
