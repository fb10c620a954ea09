import MonkeyLang.Proofs.Concatenation
import MonkeyLang.Proofs.Relabelling.Evaluation
import MonkeyLang.Proofs.RoundTrip

/-!
# Rendering preserves meaning

The text of a program is a program that does the same.

## Main Definitions

* `Relabelling.erasure` — forgets the tokens that functions carry, and the places of errors
* `Value.Alike`, `Outcome.Alike`, `Machine.Alike` — the same apart from what the erasure forgets

## Main Statements

* `Outcome.Alike.render_result_eq` — the results of alike endings have the same text
* `Value.Alike.render_eq`, `Value.Alike.isSame_eq` — alike values have the same text, and alike
  pairs of values are both the same or both different
* `Machine.Alike.output_eq`, `Machine.Alike.bindings` — alike machines have the same output, and
  alike values bound to the same names
* `runProgram_alike` — programs that differ in marks do the same
* `runProgram_render` — **so do a program and what is read from its text**

## Design Notes

A machine can hold functions from before, and what is read from the text makes functions with other
tokens.  So the two runs are compared by what they are without any tokens: erasing commutes with
evaluation, and the two programs are equal when their marks are erased.

The numbers of objects are compared as they are.  Both runs make the same objects in the same order.
-/

namespace MonkeyLang

/-- Forgets the tokens that functions carry, and the places of errors. -/
def Relabelling.erasure : Relabelling where
  keepsPlaces := false
  objectShift := 0
  scopeShift := 0

/-! ### Alike values and machines -/

/-- The values are the same, apart from the tokens that functions carry and the places of errors. -/
def Value.Alike (v w : Value) : Prop := Relabelling.erasure.value v = Relabelling.erasure.value w

/-- Both programs end in the same way, with values or interrupts that are alike. -/
def Outcome.Alike (outcome outcome' : Outcome (Option Value)) : Prop :=
  Relabelling.erasure.outcome (Option.map Relabelling.erasure.value) outcome =
    Relabelling.erasure.outcome (Option.map Relabelling.erasure.value) outcome'

/-- The machines are the same, apart from the tokens that functions carry and the places of
errors. -/
def Machine.Alike (m m' : Machine) : Prop :=
  Relabelling.erasure.machine m = Relabelling.erasure.machine m'

namespace Value.Alike

variable {v v' w w' : Value}

/-- Alike values have the same text. -/
theorem render_eq (h : v.Alike w) : v.render = w.render := by
  rw [← Relabelling.erasure.render_value v, ← Relabelling.erasure.render_value w, h]

/-- Of alike pairs, the values of both are the same or those of neither. -/
theorem isSame_eq (h : v.Alike v') (h' : w.Alike w') : v.isSame w = v'.isSame w' := by
  rw [← Relabelling.erasure.isSame_value v, ← Relabelling.erasure.isSame_value v', h, h']

end Value.Alike

namespace Machine.Alike

variable {m m' : Machine}

theorem refl (m : Machine) : m.Alike m := rfl

theorem output_eq (h : m.Alike m') : m.output = m'.output :=
  (Machine.mk.inj h).2.2.1

/-- In each scope the same names are bound, to values that are alike. -/
theorem bindings (h : m.Alike m') (scope : ScopeId) (name : String) :
    Option.Rel Value.Alike (OrderedMap.find? name (m.scopes.bindings scope))
      (OrderedMap.find? name (m'.scopes.bindings scope)) := by
  have hscopes : Relabelling.erasure.scopes m.scopes = Relabelling.erasure.scopes m'.scopes :=
    (Machine.mk.inj h).1
  have hfind := congrArg (fun s : Scopes Value =>
    OrderedMap.find? name (s.bindings (Relabelling.erasure.scope scope))) hscopes
  simp only [Relabelling.bindings_scopes, Relabelling.find?_bindings] at hfind
  -- Both are bound or neither is, and what they are bound to is the same without labels.
  generalize OrderedMap.find? name (m.scopes.bindings scope) = found at hfind ⊢
  generalize OrderedMap.find? name (m'.scopes.bindings scope) = found' at hfind ⊢
  cases found with
  | none =>
    obtain rfl := Option.map_eq_none_iff.1 hfind.symm
    exact .none
  | some v =>
    obtain ⟨w, rfl, hw⟩ := Option.map_eq_some_iff.1 hfind.symm
    exact .some hw.symm

end Machine.Alike

/-- Neither of two alike endings reaches the depth limit, or both do. -/
theorem Outcome.Alike.tooDeep_iff {outcome outcome' : Outcome (Option Value)}
    (h : outcome.Alike outcome') : outcome = .tooDeep ↔ outcome' = .tooDeep := by
  constructor
  · rintro rfl
    cases outcome' with
    | tooDeep => rfl
    | _ => exact absurd h (by simp [Alike, Relabelling.outcome])
  · rintro rfl
    cases outcome with
    | tooDeep => rfl
    | _ => exact absurd h (by simp [Alike, Relabelling.outcome])

/-- The results of alike endings have the same text. -/
theorem Outcome.Alike.render_result_eq {outcome outcome' : Outcome (Option Value)}
    (h : outcome.Alike outcome') :
    outcome.result.map Value.render = outcome'.result.map Value.render := by
  have herased (o : Outcome (Option Value)) :
      (Relabelling.erasure.outcome (Option.map Relabelling.erasure.value) o).result =
        o.result.map Relabelling.erasure.value := by
    cases o with
    | value result => rfl
    | interrupt i =>
      cases i with
      | error e => rfl
      | returned v => rfl
    | tooDeep => rfl
  have htext (o : Outcome (Option Value)) :
      (o.result.map Relabelling.erasure.value).map Value.render = o.result.map Value.render := by
    rw [Option.map_map]
    exact congrArg (Option.map · o.result) (funext Relabelling.erasure.render_value)
  rw [← htext outcome, ← htext outcome', ← herased outcome, ← herased outcome']
  unfold Outcome.Alike at h
  rw [h]

/-! ### Runs -/

/-- **Programs that differ in marks** do the same in machines that are alike. -/
theorem runProgram_alike {program other : Program Token} (h : program.erase = other.erase)
    (depth : Nat) (scope : ScopeId) {m m' : Machine} (hm : m.Alike m') :
    (runProgram depth scope program m).1.Alike (runProgram depth scope other m').1 ∧
      (runProgram depth scope program m).2.Alike (runProgram depth scope other m').2 := by
  have hmarks : mapStatements Relabelling.erasure.token program =
      mapStatements Relabelling.erasure.token other :=
    Program.map_const_of_erase_eq h _
  have hprogram := commutes_runProgram (t := Relabelling.erasure) depth scope program m
  have hother := commutes_runProgram (t := Relabelling.erasure) depth scope other m'
  rw [hmarks, hm] at hprogram
  exact Prod.mk.inj (hprogram.symm.trans hother)

/-- **Rendering preserves meaning.**  What is read from the text of a program does the same as the
program itself, in every scope of every machine and of every machine like it: it reaches the depth
limit or not, ends with the same value or error, writes the same output and leaves the same
bindings, where values are compared apart from the tokens that functions carry and the places of
errors. -/
theorem runProgram_render {source : String} {start : Option Location} {program : Program Token}
    (h : readProgram source start = .ok program) (start' : Option Location) :
    ∃ again, readProgram program.render start' = .ok again ∧
      ∀ (depth : Nat) (scope : ScopeId) (m m' : Machine), m.Alike m' →
        (runProgram depth scope program m).1.Alike (runProgram depth scope again m').1 ∧
          (runProgram depth scope program m).2.Alike (runProgram depth scope again m').2 := by
  obtain ⟨again, hagain, herase⟩ :=
    parse_render (wellFormed_of_parse (readProgram_eq_ok_iff.1 h)) start'
  refine ⟨again, readProgram_eq_ok_iff.2 hagain, fun depth scope m m' hm => ?_⟩
  exact runProgram_alike herase.symm depth scope hm

/-- In the text of this source, parentheses, line ends and semicolons are not where they were.  Both
write one line and end in an array, in which the text of the function is the same, too. -/
theorem runProgram_render_closure :
    let source := "let f = fn(x) \x7b puts(x); 1 + (x * 2) \x7d;\n[f, f == f, f(3)]"
    let text := "let f = fn(x) \x7b puts(x); (1 + (x * 2)) \x7d; [f, (f == f), f(3)]"
    let m : Machine := { scopes := Scopes.empty.create none }
    ∃ program again, readProgram source none = .ok program ∧ program.render = text ∧
      readProgram text none = .ok again ∧
      ∀ p ∈ [program, again],
        (runProgram 5 0 p m).1.result.map Value.render =
          some "[fn(x) \x7b puts(x); (1 + (x * 2)) \x7d, true, 7]" ∧
        (runProgram 5 0 p m).2.output = "3\n" := by
  intro source text m
  have hread : (readProgram source none).toOption.map (fun program => (program.render,
      (runProgram 5 0 program m).1.result.map Value.render, (runProgram 5 0 program m).2.output)) =
        some (text, some "[fn(x) \x7b puts(x); (1 + (x * 2)) \x7d, true, 7]", "3\n") := by
    decide +kernel
  cases hprogram : readProgram source none with
  | error rejection =>
    rw [hprogram] at hread
    cases hread
  | ok program =>
    rw [hprogram] at hread
    obtain ⟨hrender, hrun⟩ := Prod.mk.inj (Option.some.inj hread)
    obtain ⟨hresult, houtput⟩ := Prod.mk.inj hrun
    obtain ⟨again, hagain, hruns⟩ := runProgram_render hprogram none
    obtain ⟨halike, hmachine⟩ := hruns 5 0 m m (.refl m)
    rw [hrender] at hagain
    refine ⟨program, again, rfl, hrender, hagain, ?_⟩
    rw [List.forall_mem_cons, List.forall_mem_singleton]
    refine ⟨⟨hresult, houtput⟩, ?_, ?_⟩
    · exact halike.render_result_eq.symm.trans hresult
    · exact hmachine.output_eq.symm.trans houtput

end MonkeyLang
