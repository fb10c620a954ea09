import Mathlib.Data.List.Basic
import MonkeyLang.Evaluation
import MonkeyLang.Proofs.Relabelling

/-!
# Evaluation in relabelled machines

An evaluation in a relabelled machine ends as it does in the machine itself, apart from the labels.

## Main Definitions

* `Relabelling.outcome` — a relabelled outcome
* `Eval.Commutes` — of two evaluations, the second one does in every relabelled machine what the
  first one does in the machine itself

## Main Statements

* `Eval.Commutes.bind`, `Eval.Commutes.takeReturned` — the rules for sequences, and for calls and
  programs
* `Evaluation.commutes_step` — an expression, if those inside it commute
* `commutes_evaluate`, `commutes_runProgram` — every expression, and every program

## Design Notes

Nothing is asked of the machine, and nothing of the depth: that the limit is reached does not depend
on labels either.
-/

namespace MonkeyLang

variable {α β α' β' : Type}

/-- A relabelled interrupt. -/
def Relabelling.interrupt (t : Relabelling) : Interrupt → Interrupt
  | .error e => .error (t.error e)
  | .returned v => .returned (t.value v)

/-- A relabelled outcome, for values that `f` relabels. -/
def Relabelling.outcome (t : Relabelling) (f : α → β) : Outcome α → Outcome β
  | .value a => .value (f a)
  | .interrupt i => .interrupt (t.interrupt i)
  | .tooDeep => .tooDeep

/-- A value is an interrupt exactly when it is one after relabelling. -/
theorem Relabelling.interrupt?_value (t : Relabelling) (v : Value) :
    (t.value v).interrupt? = v.interrupt?.map t.interrupt := by
  cases v <;> rfl

namespace Eval

/-- **Evaluations that commute with a relabelling.**  In every relabelled machine `y` ends as `x`
does in the machine itself, apart from the labels. -/
def Commutes (t : Relabelling) (f : α → β) (x : Eval α) (y : Eval β) : Prop :=
  ∀ m, y (t.machine m) = (t.outcome f (x m).1, t.machine (x m).2)

namespace Commutes

variable {t : Relabelling} {f : α → β} {g : α' → β'} {x : Eval α} {y : Eval β}
  {location : Option Location}

/-! ### Sequences -/

/-- Corresponding results. -/
theorem pure (a : α) {b : β} (h : b = f a) :
    Commutes t f (Pure.pure a : Eval α) (Pure.pure b : Eval β) := by
  subst h
  exact fun _ => rfl

/-- **The rule for sequences.** -/
theorem bind {x' : α → Eval α'} {y' : β → Eval β'} (h : Commutes t f x y)
    (h' : ∀ a, Commutes t g (x' a) (y' (f a))) : Commutes t g (x >>= x') (y >>= y') := by
  intro m
  have hm := h m
  rw [bind_apply, bind_apply, hm]
  generalize x m = ending
  obtain ⟨outcome, m'⟩ := ending
  cases outcome with
  | value a => exact h' a m'
  | interrupt i => rfl
  | tooDeep => rfl

/-! ### Endings -/

theorem interrupted (i : Interrupt) :
    Commutes t f (Eval.interrupt i : Eval α) (Eval.interrupt (t.interrupt i) : Eval β) :=
  fun _ => rfl

theorem tooDeep : Commutes t f (Eval.tooDeep : Eval α) (Eval.tooDeep : Eval β) :=
  fun _ => rfl

theorem fault (cause : Fault) :
    Commutes t f (Eval.fault location cause : Eval α)
      (Eval.fault (t.place location) cause : Eval β) :=
  interrupted _

/-- What can fail fails in both runs, for the same cause. -/
theorem orFault {r : Except Fault α} {r' : Except Fault β} (h : r' = r.map f) :
    Commutes t f (Eval.orFault location r) (Eval.orFault (t.place location) r') := by
  subst h
  cases r with
  | ok a => exact pure a rfl
  | error cause => exact fault cause

/-- A value that is an interrupt unwinds both runs. -/
theorem settle (v : Value) : Commutes t t.value (Eval.settle v) (Eval.settle (t.value v)) := by
  unfold Eval.settle
  rw [t.interrupt?_value]
  cases v.interrupt? with
  | some i => exact interrupted i
  | none => exact pure v rfl

/-- **The rule for calls and programs.** -/
theorem takeReturned {take : Value → α} {take' : Value → β} (h : Commutes t f x y)
    (htake : ∀ v, take' (t.value v) = f (take v)) :
    Commutes t f (x.takeReturned take) (y.takeReturned take') := by
  intro m
  have hm := h m
  unfold Eval.takeReturned
  rw [hm]
  generalize x m = ending
  obtain ⟨outcome, m'⟩ := ending
  cases outcome with
  | value a => rfl
  | interrupt i =>
    cases i with
    | error e => rfl
    | returned v =>
      simp only [Relabelling.outcome, Relabelling.interrupt]
      rw [htake]
  | tooDeep => rfl

/-! ### Effects -/

theorem writeLine (text : String) : Commutes t id (Eval.writeLine text) (Eval.writeLine text) :=
  fun _ => rfl

/-- The next numbers of the two machines correspond, and so do those behind them. -/
theorem newObject : Commutes t t.object Eval.newObject Eval.newObject := by
  intro m
  simp only [Eval.newObject, Relabelling.outcome, Relabelling.machine, Relabelling.object,
    Nat.add_right_comm]

theorem newArray (elements : List Value) :
    Commutes t t.value (Eval.newArray elements) (Eval.newArray (t.values elements)) :=
  newObject.bind fun _ => pure _ rfl

theorem newHash (entries : Entries) :
    Commutes t t.value (Eval.newHash entries) (Eval.newHash (t.pairs entries)) :=
  newObject.bind fun _ => pure _ rfl

/-- A closure is made over the corresponding scope, of the tree with relabelled tokens. -/
theorem newFunction (parameters : List (Name Token)) (body : Block Token) (scope : ScopeId) :
    Commutes t t.value (Eval.newFunction parameters body scope)
      (Eval.newFunction (parameters.map (Name.map t.token)) (body.map t.token) (t.scope scope)) :=
  newObject.bind fun _ => pure _ rfl

/-- A builtin's error gets its place in both runs, or has one in both. -/
theorem handOut (v : Value) :
    Commutes t t.value (Eval.handOut location v) (Eval.handOut (t.place location) (t.value v)) := by
  cases v with
  | error e =>
    intro m
    simp only [Relabelling.value, Eval.handOut, Relabelling.outcome, t.placeOf_machine,
      t.machine_notePlace, ← t.place_or]
    rfl
  | _ => exact pure _ rfl

/-- New scopes correspond, as they are the next ones. -/
theorem newScope (outer : ScopeId) (bindings : OrderedMap String Value) :
    Commutes t t.scope (Eval.newScope (some outer) bindings)
      (Eval.newScope (some (t.scope outer)) (t.bindings bindings)) := by
  intro m
  simp only [Eval.newScope, Relabelling.outcome, Relabelling.machine, t.size_scopes,
    t.scopes_create]
  rfl

theorem bindName (scope : ScopeId) (name : String) (v : Value) :
    Commutes t id (Eval.bindName scope name v)
      (Eval.bindName (t.scope scope) name (t.value v)) := by
  intro m
  simp only [Eval.bindName, Relabelling.outcome, Relabelling.machine, t.scopes_bind]

/-- A lookup from the corresponding scope finds the corresponding value. -/
theorem lookup (scope : ScopeId) (name : String) :
    Commutes t (Option.map t.value) (Eval.lookup scope name)
      (Eval.lookup (t.scope scope) name) := by
  intro m
  simp only [Eval.lookup, Relabelling.outcome, Relabelling.machine, t.lookup_scopes]

end Commutes

end Eval

open Eval

variable {t : Relabelling}

/-! ### Built-in functions -/

namespace Builtin

variable {location : Option Location}

/-- Both runs write the same, since the text of a value has no numbers. -/
theorem commutes_writeAll (vs : List Value) :
    Commutes t id (writeAll vs) (writeAll (t.values vs)) := by
  induction vs with
  | nil => exact .pure _ rfl
  | cons v vs ih =>
    rw [Relabelling.values, writeAll, writeAll, t.render_value]
    exact (Commutes.writeLine v.render).bind fun _ => ih

theorem length_value (v : Value) : length (t.value v) = t.result (length v) := by
  cases v with
  | array id elements => simp [Relabelling.value, length, t.values_eq_map, Except.map]
  | _ => rfl

/-- The elements that a builtin works on correspond. -/
theorem elementsOf_value (b : Builtin) (v : Value) :
    elementsOf b (t.value v) = (elementsOf b v).map t.values := by
  cases v <;> rfl

/-- A call with another number of arguments than the function takes. -/
theorem apply_of_length_ne {b : Builtin} {arguments : List Value} {n : Nat}
    (harity : b.arity = some n) (hlength : arguments.length ≠ n) :
    b.apply location arguments =
      Eval.fault location (.wrongArgumentCount arguments.length n) := by
  unfold Builtin.apply
  split
  · cases harity
  · cases harity
    exact absurd rfl hlength
  · cases harity
    exact absurd rfl hlength
  · cases harity
    exact absurd rfl hlength
  · cases harity
    exact absurd rfl hlength
  · cases harity
    exact absurd rfl hlength
  · rw [harity, Option.getD_some]

/-- It is enough to look at calls with the right number of arguments. -/
theorem commutes_apply_of_arity {b : Builtin} {n : Nat} (harity : b.arity = some n)
    (h : ∀ arguments : List Value, arguments.length = n →
      Commutes t t.value (b.apply location arguments)
        (b.apply (t.place location) (t.values arguments))) (arguments : List Value) :
    Commutes t t.value (b.apply location arguments)
      (b.apply (t.place location) (t.values arguments)) := by
  by_cases hlength : arguments.length = n
  · exact h arguments hlength
  · have hvalues : (t.values arguments).length = arguments.length := by
      rw [t.values_eq_map, List.length_map]
    rw [apply_of_length_ne harity hlength, apply_of_length_ne harity (hvalues ▸ hlength), hvalues]
    exact .fault _

/-- **Built-in functions commute with a relabelling.** -/
theorem commutes_apply (b : Builtin) (arguments : List Value) :
    Commutes t t.value (b.apply location arguments)
      (b.apply (t.place location) (t.values arguments)) := by
  have helements (v : Value) : Commutes t t.values (Eval.orFault location (elementsOf b v))
      (Eval.orFault (t.place location) (elementsOf b (t.value v))) :=
    .orFault (elementsOf_value b v)
  cases b with
  | puts => exact (commutes_writeAll arguments).bind fun _ => .pure _ rfl
  | len =>
    refine commutes_apply_of_arity rfl (fun arguments hlength => ?_) arguments
    obtain ⟨v, rfl⟩ := List.length_eq_one_iff.1 hlength
    exact .orFault (length_value v)
  | first =>
    refine commutes_apply_of_arity rfl (fun arguments hlength => ?_) arguments
    obtain ⟨v, rfl⟩ := List.length_eq_one_iff.1 hlength
    refine (helements v).bind fun elements => ?_
    rw [t.values_eq_map, List.head?_map, ← t.value_getD_null]
    exact .handOut _
  | last =>
    refine commutes_apply_of_arity rfl (fun arguments hlength => ?_) arguments
    obtain ⟨v, rfl⟩ := List.length_eq_one_iff.1 hlength
    refine (helements v).bind fun elements => ?_
    rw [t.values_eq_map, List.getLast?_map, ← t.value_getD_null]
    exact .handOut _
  | rest =>
    refine commutes_apply_of_arity rfl (fun arguments hlength => ?_) arguments
    obtain ⟨v, rfl⟩ := List.length_eq_one_iff.1 hlength
    refine (helements v).bind fun elements => ?_
    cases elements with
    | nil => exact .pure _ rfl
    | cons first others => exact .newArray others
  | push =>
    refine commutes_apply_of_arity rfl (fun arguments hlength => ?_) arguments
    obtain ⟨v, added, rfl⟩ := List.length_eq_two.1 hlength
    refine (helements v).bind fun elements => ?_
    have hadded : t.values elements ++ [t.value added] = t.values (elements ++ [added]) := by
      simp [t.values_eq_map]
    rw [hadded]
    exact .newArray _

end Builtin

/-! ### Evaluation -/

namespace Evaluation

variable {inner : Inner}

/-- The evaluation of inner expressions commutes with the relabelling. -/
def InnerCommutes (t : Relabelling) (inner : Inner) : Prop :=
  ∀ scope e, Commutes t t.value (inner scope e) (inner (t.scope scope) (e.map t.token))

/-- **A statement commutes with relabelling**, if the expressions in it do. -/
theorem commutes_statement (hinner : InnerCommutes t inner) (scope : ScopeId)
    (s : Statement Token) :
    Commutes t (Option.map t.value) (statement inner scope s)
      (statement inner (t.scope scope) (s.map t.token)) := by
  rcases s with ⟨tok, name, e⟩ | ⟨tok, _ | e⟩ | ⟨tok, e⟩
  · refine (hinner scope e).bind fun v => ?_
    exact (Commutes.bindName scope name.text v).bind fun _ => .pure _ rfl
  · exact .interrupted (.returned .null)
  · exact (hinner scope e).bind fun v => .interrupted (.returned v)
  · exact (hinner scope e).bind fun v => .pure _ rfl

/-- So do statements in turn, whatever the last result was. -/
theorem commutes_statements (hinner : InnerCommutes t inner) (scope : ScopeId)
    (ss : List (Statement Token)) (result : Option Value) :
    Commutes t (Option.map t.value) (statements inner scope result ss)
      (statements inner (t.scope scope) (result.map t.value) (mapStatements t.token ss)) := by
  induction ss generalizing result with
  | nil => exact .pure _ rfl
  | cons s ss ih => exact (commutes_statement hinner scope s).bind ih

/-- So does a block, which is worth null in both runs if its statements have no value. -/
theorem commutes_block (hinner : InnerCommutes t inner) (scope : ScopeId) (b : Block Token) :
    Commutes t t.value (block inner scope b) (block inner (t.scope scope) (b.map t.token)) := by
  obtain ⟨tok, ss⟩ := b
  refine (commutes_statements hinner scope ss none).bind fun result => ?_
  exact .pure _ (t.value_getD_null result).symm

/-- **Calls commute with a relabelling.**  The body of the function is evaluated in the scope that
is made next, in both machines. -/
theorem commutes_invoke (hinner : InnerCommutes t inner) (location : Option Location)
    (callee : Value) (arguments : List Value) :
    Commutes t t.value (invoke inner location callee arguments)
      (invoke inner (t.place location) (t.value callee) (t.values arguments)) := by
  cases callee with
  | builtin b => exact b.commutes_apply arguments
  | function id parameters body scope =>
    have hlength : (t.values arguments).length = arguments.length := by
      rw [t.values_eq_map, List.length_map]
    have hnames : (parameters.map (Name.map t.token)).map (fun p => p.text) =
        parameters.map fun p => p.text := List.map_map
    simp only [Relabelling.value, invoke, hlength, hnames, List.length_map]
    split
    · have hbindings : (parameters.map fun p => p.text).zip (t.values arguments) =
          t.bindings ((parameters.map fun p => p.text).zip arguments) := by
        rw [t.values_eq_map, Relabelling.bindings, List.zip_map_right]
      rw [hbindings]
      refine (Commutes.newScope scope _).bind fun frame => ?_
      exact (commutes_block hinner frame body).takeReturned fun _ => rfl
    · exact .fault _
  | _ => exact .fault _

/-- Operands are evaluated in turn in both runs, and the first interrupt ends both. -/
theorem commutes_operands (hinner : InnerCommutes t inner) (scope : ScopeId)
    (es : List (Expr Token)) :
    Commutes t t.values (operands inner scope es)
      (operands inner (t.scope scope) (mapExprs t.token es)) := by
  induction es with
  | nil => exact .pure _ rfl
  | cons e es ih =>
    refine (hinner scope e).bind fun v => ?_
    exact ih.bind fun vs => .pure _ rfl

theorem commutes_entries (hinner : InnerCommutes t inner) (scope : ScopeId)
    (ps : List (Expr Token × Expr Token)) (stored : Entries) :
    Commutes t t.pairs (entries inner scope stored ps)
      (entries inner (t.scope scope) (t.pairs stored) (mapPairs t.token ps)) := by
  induction ps generalizing stored with
  | nil => exact .pure _ rfl
  | cons pair ps ih =>
    obtain ⟨k, v⟩ := pair
    refine (hinner scope k).bind fun key => ?_
    simp only [t.hashKey?_value, t.kind_value, Expr.mark_map, t.location_token]
    cases key.hashKey? with
    | none => exact .fault _
    | some slot =>
      refine (hinner scope v).bind fun item => ?_
      simp only [← t.pairs_insert]
      exact ih _

/-- A name is bound in both runs, or a builtin in both, or missing from both. -/
theorem commutes_identifier (scope : ScopeId) (location : Option Location) (name : String) :
    Commutes t t.value (identifier scope location name)
      (identifier (t.scope scope) (t.place location) name) := by
  refine (Commutes.lookup scope name).bind fun found => ?_
  cases found with
  | some v => exact .settle v
  | none =>
    simp only [Option.map_none]
    cases Builtin.ofName? name with
    | some b => exact .pure _ rfl
    | none => exact .fault _

/-- **An expression commutes with a relabelling** if the expressions inside it do. -/
theorem commutes_step (hinner : InnerCommutes t inner) : InnerCommutes t (step inner) := by
  intro scope e
  cases e with
  | identifier tok name =>
    simpa [Expr.map, step] using commutes_identifier scope tok.location name
  | integer tok n => exact .pure _ rfl
  | boolean tok b => exact .pure _ rfl
  | string tok s => exact .pure _ rfl
  | unary tok op e =>
    refine (hinner scope e).bind fun v => ?_
    rw [t.location_token]
    exact .orFault (t.apply_unary op v)
  | binary tok left op right =>
    refine (hinner scope left).bind fun a => ?_
    refine (hinner scope right).bind fun b => ?_
    rw [t.location_token]
    exact .orFault (t.apply_binary op a b)
  | conditional tok condition consequence alternative =>
    cases alternative with
    | none =>
      refine (hinner scope condition).bind fun v => ?_
      rw [t.isTruthy_value]
      split
      · exact commutes_block hinner scope consequence
      · exact .pure _ rfl
    | some b =>
      refine (hinner scope condition).bind fun v => ?_
      rw [t.isTruthy_value]
      split
      · exact commutes_block hinner scope consequence
      · exact commutes_block hinner scope b
  | function tok parameters body => exact .newFunction parameters body scope
  | call tok callee arguments =>
    refine (hinner scope callee).bind fun f => ?_
    refine (commutes_operands hinner scope arguments).bind fun vs => ?_
    rw [t.location_token]
    exact (commutes_invoke hinner tok.location f vs).bind fun result => .settle result
  | array tok elements =>
    exact (commutes_operands hinner scope elements).bind fun vs => .newArray vs
  | hash tok ps =>
    exact (commutes_entries hinner scope ps []).bind fun stored => .newHash stored
  | index tok store subscript =>
    refine (hinner scope store).bind fun s => ?_
    refine (hinner scope subscript).bind fun i => ?_
    rw [t.location_token]
    exact (Commutes.orFault (t.at_value s i)).bind fun v => .settle v

end Evaluation

/-- **Every expression commutes with a relabelling**, at every depth. -/
theorem commutes_evaluate (depth : Nat) : Evaluation.InnerCommutes t (evaluate depth) := by
  induction depth with
  | zero => exact fun _ _ => .tooDeep
  | succ depth ih => exact Evaluation.commutes_step ih

/-- **So does every program.** -/
theorem commutes_runProgram (depth : Nat) (scope : ScopeId) (program : Program Token) :
    Commutes t (Option.map t.value) (runProgram depth scope program)
      (runProgram depth (t.scope scope) (mapStatements t.token program)) :=
  (Evaluation.commutes_statements (commutes_evaluate depth) scope program none).takeReturned
    fun _ => rfl

end MonkeyLang
