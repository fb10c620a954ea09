import MonkeyLang.Proofs.Concatenation
import MonkeyLang.Proofs.Confinement
import MonkeyLang.Proofs.Congruence
import MonkeyLang.Proofs.Data.Evaluation

/-!
# The depth limit

The depth limit only cuts runs short.  A higher limit changes nothing for an evaluation that does
not reach the lower one, and for one that does it only adds to what is written.

## Main Definitions

* `Eval.Extends` — of two evaluations, the second one does what the first one does, unless that one
  reaches the depth limit
* `Machine.OutputBefore` — the output of one machine begins that of another one
* `Eval.CutsShort` — the first evaluation is the second one, or what it does up to some point

## Main Statements

* `Eval.congruence_extends`, `Eval.congruence_cutsShort` — both relations are congruences
* `extends_evaluate`, `cutsShort_evaluate` — limits in order make related evaluations
* `runProgram_cut_short` — **a program under two limits**, and what is left when the lower one is
  reached

## Design Notes

Where the limit is reached matters: the machine that is left then is that of an evaluation under
way, and a higher limit leaves another one.  What was written up to there stays written, because no
evaluation takes back any output.  That is the only thing asked of the higher limit beyond the
lower one, and it is why `CutsShort` says of the first evaluation that its output grows.
-/

namespace MonkeyLang

variable {α β : Type}

namespace Eval

/-- **The second evaluation extends the first one**: in every machine from which `x` does not reach
the depth limit, `y` does the same. -/
def Extends (x y : Eval α) : Prop := ∀ m, (x m).1 ≠ .tooDeep → y m = x m

namespace Extends

variable {x y : Eval α}

theorem refl (x : Eval α) : Extends x x := fun _ _ => rfl

/-- What reaches the limit at once is extended by everything. -/
theorem tooDeep (y : Eval α) : Extends Eval.tooDeep y := fun _ hm => absurd rfl hm

/-- **The rule for sequences.** -/
theorem bind {f g : α → Eval β} (h : Extends x y) (h' : ∀ a, Extends (f a) (g a)) :
    Extends (x >>= f) (y >>= g) := by
  intro m hm
  have hy := h m
  rw [bind_apply] at hm
  rw [bind_apply, bind_apply]
  generalize x m = ending at hm hy ⊢
  obtain ⟨outcome, m'⟩ := ending
  cases outcome with
  | value a =>
    rw [hy nofun]
    exact h' a m' hm
  | interrupt i => rw [hy nofun]
  | tooDeep => exact absurd rfl hm

/-- **The rule for calls and programs.** -/
theorem takeReturned (h : Extends x y) (f : Value → α) :
    Extends (x.takeReturned f) (y.takeReturned f) := by
  intro m hm
  have hy := h m
  unfold Eval.takeReturned at hm ⊢
  generalize x m = ending at hm hy ⊢
  obtain ⟨outcome, m'⟩ := ending
  cases outcome with
  | tooDeep => exact absurd rfl hm
  | _ => rw [hy nofun]

end Extends

/-- What extends an evaluation part by part extends the whole. -/
theorem congruence_extends : Congruence @Extends where
  pure _ := .refl _
  bind := .bind
  takeReturned := .takeReturned
  interrupt _ := .refl _
  writeLine _ := .refl _
  newObject := .refl _
  handOut _ _ := .refl _
  newScope _ _ := .refl _
  bindName _ _ _ := .refl _
  lookup _ _ := .refl _

end Eval

open Eval

/-- The second evaluation of inner expressions extends the first one. -/
def Evaluation.InnerExtends (inner inner' : Evaluation.Inner) : Prop :=
  ∀ scope e, Extends (inner scope e) (inner' scope e)

theorem Evaluation.extends_statements {inner inner' : Evaluation.Inner}
    (hinner : InnerExtends inner inner') (scope : ScopeId) (ss : List (Statement Token))
    (result : Option Value) :
    Extends (statements inner scope result ss) (statements inner' scope result ss) :=
  related_statements congruence_extends hinner scope ss result

/-- **A higher limit** changes nothing for an expression that does not reach the lower one. -/
theorem extends_evaluate {depth depth' : Nat} (h : depth ≤ depth') :
    Evaluation.InnerExtends (evaluate depth) (evaluate depth') := by
  induction depth generalizing depth' with
  | zero => exact fun scope e => .tooDeep _
  | succ depth ih =>
    obtain ⟨depth', rfl⟩ := Nat.exists_eq_add_of_lt h
    exact Evaluation.related_step congruence_extends (ih (Nat.le_add_right _ _))

/-! ### Output -/

/-- The output of the second machine is that of the first one, with more text behind it or none. -/
def Machine.OutputBefore (m m' : Machine) : Prop := ∃ more, m'.output = m.output ++ more

namespace Machine.OutputBefore

variable {m m' m'' : Machine}

theorem of_eq (h : m'.output = m.output) : m.OutputBefore m' :=
  ⟨"", by rw [h, String.append_empty]⟩

theorem refl (m : Machine) : m.OutputBefore m := of_eq rfl

theorem trans (h : m.OutputBefore m') (h' : m'.OutputBefore m'') : m.OutputBefore m'' := by
  obtain ⟨more, hmore⟩ := h
  obtain ⟨more', hmore'⟩ := h'
  exact ⟨more ++ more', by rw [hmore', hmore, String.append_assoc]⟩

end Machine.OutputBefore

namespace Eval

/-- **The first evaluation is the second one, or what it does up to some point.**  It does the same
unless it reaches the depth limit, and whatever it has written by then the second one writes
first. -/
structure CutsShort (x y : Eval α) : Prop where
  same : Extends x y
  grows : ∀ m : Machine, m.OutputBefore (x m).2
  before : ∀ m : Machine, (x m).2.OutputBefore (y m).2

namespace CutsShort

variable {x y : Eval α}

theorem grows_right (h : CutsShort x y) (m : Machine) : m.OutputBefore (y m).2 :=
  (h.grows m).trans (h.before m)

theorem refl (h : ∀ m : Machine, m.OutputBefore (x m).2) : CutsShort x x :=
  ⟨.refl x, h, fun _ => .refl _⟩

/-- An evaluation that leaves the output alone. -/
theorem silent (h : ∀ m : Machine, (x m).2.output = m.output) : CutsShort x x :=
  refl fun m => .of_eq (h m)

/-- What reaches the limit at once is the beginning of everything that takes no output back. -/
theorem tooDeep (h : ∀ m : Machine, m.OutputBefore (y m).2) : CutsShort Eval.tooDeep y :=
  ⟨.tooDeep y, fun m => .refl m, h⟩

/-- **The rule for sequences.**  If the first part is cut short, the second evaluation may go on
with its second part, and that takes no output back. -/
theorem bind {f g : α → Eval β} (h : CutsShort x y) (h' : ∀ a, CutsShort (f a) (g a)) :
    CutsShort (x >>= f) (y >>= g) := by
  have hgrows : ∀ m, (y m).2.OutputBefore ((y >>= g) m).2 := by
    intro m
    rw [bind_apply]
    generalize y m = ending
    obtain ⟨outcome, m'⟩ := ending
    cases outcome with
    | value a => exact (h' a).grows_right m'
    | _ => exact .refl m'
  refine ⟨h.same.bind fun a => (h' a).same, fun m => (h.grows m).trans ?_, fun m => ?_⟩
  · rw [bind_apply]
    generalize x m = ending
    obtain ⟨outcome, m'⟩ := ending
    cases outcome with
    | value a => exact (h' a).grows m'
    | _ => exact .refl m'
  · have hsame := h.same m
    have hbefore := (h.before m).trans (hgrows m)
    rw [bind_apply] at hbefore ⊢
    rw [bind_apply]
    generalize x m = ending at hsame hbefore ⊢
    obtain ⟨outcome, m'⟩ := ending
    cases outcome with
    | value a =>
      rw [hsame nofun]
      exact (h' a).before m'
    | interrupt i =>
      rw [hsame nofun]
      exact .refl m'
    | tooDeep => exact hbefore

end CutsShort

/-- Taking a returned value leaves the machine as it is. -/
theorem machine_takeReturned (x : Eval α) (f : Value → α) (m : Machine) :
    (x.takeReturned f m).2 = (x m).2 := by
  unfold Eval.takeReturned
  split
  · next h => rw [h]
  · rfl

/-- **The rule for calls and programs.** -/
theorem CutsShort.takeReturned {x y : Eval α} (h : CutsShort x y) (f : Value → α) :
    CutsShort (x.takeReturned f) (y.takeReturned f) where
  same := h.same.takeReturned f
  grows m := by
    rw [machine_takeReturned]
    exact h.grows m
  before m := by
    rw [machine_takeReturned, machine_takeReturned]
    exact h.before m

theorem output_handOut (location : Option Location) (v : Value) (m : Machine) :
    (handOut location v m).2.output = m.output := by
  unfold handOut
  split
  · show (m.notePlace _ location).output = m.output
    unfold Machine.notePlace
    split <;> rfl
  · rfl

/-- What cuts an evaluation short part by part cuts the whole short. -/
theorem congruence_cutsShort : Congruence @CutsShort where
  pure _ := .silent fun _ => rfl
  bind := .bind
  takeReturned := .takeReturned
  interrupt _ := .silent fun _ => rfl
  writeLine text := .refl fun _ => ⟨text ++ "\n", rfl⟩
  newObject := .silent fun _ => rfl
  handOut location v := .silent (output_handOut location v)
  newScope _ _ := .silent fun _ => rfl
  bindName _ _ _ := .silent fun _ => rfl
  lookup _ _ := .silent fun _ => rfl

end Eval

/-- **A lower limit** cuts every expression short, if it changes anything. -/
theorem cutsShort_evaluate {depth depth' : Nat} (h : depth ≤ depth') :
    Evaluation.InnerRelated @CutsShort (evaluate depth) (evaluate depth') := by
  -- Below the lowest limit all that is left to show is that the other evaluation takes no output
  -- back, so each limit is compared with itself first.
  have hself (depth : Nat) :
      Evaluation.InnerRelated @CutsShort (evaluate depth) (evaluate depth) := by
    induction depth with
    | zero => exact fun scope e => .silent fun _ => rfl
    | succ depth ih => exact Evaluation.related_step congruence_cutsShort ih
  induction depth generalizing depth' with
  | zero => exact fun scope e => .tooDeep (hself depth' scope e).grows
  | succ depth ih =>
    obtain ⟨depth', rfl⟩ := Nat.exists_eq_add_of_lt h
    exact Evaluation.related_step congruence_cutsShort (ih (Nat.le_add_right _ _))

/-! ### Programs and sources -/

/-- **A program under two limits.**  Unless the lower limit is reached, the run under the higher one
ends in the same way and leaves the same machine.  If it is reached, what was written by then begins
what is written under the higher limit.  The machine that is left holds data if the first one did,
and is one of a session if the first one was.  No old scope has changed, except that names of `let`
statements of the program may be bound in its scope.  A source with this program answers with an
error that has no place. -/
theorem runProgram_cut_short {limit limit' : Nat} (h : limit ≤ limit') (scope : ScopeId)
    (program : Program Token) (m : Machine) :
    let run := runProgram limit scope program m
    let run' := runProgram limit' scope program m
    (run.1 ≠ .tooDeep → run' = run) ∧
      (run.1 = .tooDeep →
        run.2.OutputBefore run'.2 ∧
        (m.HoldsData → run.2.HoldsData) ∧
        (∀ events, m = Session.after events → ∃ events', run.2 = Session.after events') ∧
        m.scopes.Confined scope (letNamesOfStatements program) run.2.scopes ∧
        ∀ source start, readProgram source start = .ok program →
          ∃ e, runSource source start scope m limit = (.ok (some (.error e)), run.2) ∧
            e.message = "maximum recursion depth exceeded" ∧ e.location = none) := by
  intro run run'
  have hcut : CutsShort (runProgram limit scope program) (runProgram limit' scope program) :=
    related_runProgram congruence_cutsShort (cutsShort_evaluate h) scope program
  refine ⟨hcut.same m, fun hdeep => ⟨hcut.before m, ?_, ?_, ?_, ?_⟩⟩
  · exact fun hdata => (keepsData_runProgram limit scope program m hdata).2
  · rintro events rfl
    -- A run that no one gives up is a run that may be given up.
    refine ⟨events ++ [.cut (fun _ _ _ => false) limit scope program], ?_⟩
    rw [Session.after_append, Session.Event.apply, evaluateUntil_never]
    exact machine_takeReturned _ _ _
  · exact confines_runProgram limit scope program m
  · intro source start hread
    refine ⟨{ fault := .tooDeep }, ?_, rfl, rfl⟩
    have hresult : run.1.result = some (.error { fault := .tooDeep }) := by
      rw [hdeep, Outcome.result]
    rw [runSource_of_readProgram hread, ← hresult]

/-- The second line is written only under the higher limit. -/
theorem runProgram_cut_short_negations :
    let token (lexeme : Lexeme) : Token := ⟨lexeme, none⟩
    let name : Token := token (.identifier "puts")
    let paren : Token := token (.symbol .leftParen)
    let not (e : Expr Token) : Expr Token := .unary (token (.symbol .bang)) .not e
    let print (e : Expr Token) : Statement Token :=
      .expression name (.call paren (.identifier name "puts") [e])
    let program : Program Token :=
      [print (.integer (token (.integer "1")) 1),
        print (not (not (.boolean (token (.keyword .true_)) true)))]
    let m : Machine := Session.after [.create none]
    3 ≤ 4 ∧ (runProgram 3 0 program m).1 = .tooDeep ∧ (runProgram 3 0 program m).2.output = "1\n" ∧
      (runProgram 4 0 program m).2.output = "1\ntrue\n" ∧
      (runProgram 3 0 program m).2.OutputBefore (runProgram 4 0 program m).2 ∧
      (runProgram 3 0 program m).2.HoldsData ∧
      ∃ e, runSource "puts(1); puts(!!true)" none 0 m 3 =
        (.ok (some (.error e)), (runProgram 3 0 program m).2) := by
  intro token name paren not print program m
  have hdeep : (runProgram 3 0 program m).1 = .tooDeep := rfl
  have htokens : (lex "puts(1); puts(!!true)" none).tokens =
      [name, paren, token (.integer "1"), token (.symbol .rightParen), token (.symbol .semicolon),
        name, paren, token (.symbol .bang), token (.symbol .bang), token (.keyword .true_),
        token (.symbol .rightParen)] := by
    decide +kernel
  have hread : readProgram "puts(1); puts(!!true)" none = .ok program := by
    rw [readProgram_eq_ok_iff]
    show parseTokens ⟨(lex "puts(1); puts(!!true)" none).tokens, _⟩ = _
    rw [htokens]
    rfl
  obtain ⟨-, hcut⟩ := runProgram_cut_short (show 3 ≤ 4 by decide) 0 program m
  obtain ⟨hbefore, hdata, -, -, hsource⟩ := hcut hdeep
  obtain ⟨e, he, -, -⟩ := hsource _ none hread
  exact ⟨by decide, hdeep, rfl, rfl, hbefore, hdata (Session.holdsData_after _), e, he⟩

end MonkeyLang
