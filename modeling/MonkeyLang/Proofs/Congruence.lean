import MonkeyLang.Evaluation

/-!
# Relations that evaluation respects

Evaluations are put together from a few effects by sequences, calls and programs.  A relation that
holds of each effect, and passes through these, holds of every construct of the language as soon as
it holds of the expressions inside.

## Main Definitions

* `Eval.Congruence` — the relation holds of effects, and respects sequences and returned values
* `Evaluation.InnerRelated` — the relation holds between two evaluations of inner expressions

## Main Statements

* `Evaluation.related_invoke` — related evaluations make related calls
* `Evaluation.related_step` — related evaluations of inner expressions make related expressions
* `related_runProgram` — and related programs

## Design Notes

Only the limit differs between the evaluations that are compared, so reaching the limit is not among
the effects.  Each relation has its own answer to that.
-/

namespace MonkeyLang

variable {α β : Type}

namespace Eval

/-- **A congruence** of evaluations: the relation holds of every effect, of sequences whose parts
are related, and where returned values are taken. -/
structure Congruence (R : ∀ ⦃α : Type⦄, Eval α → Eval α → Prop) : Prop where
  pure : ∀ {α : Type} (a : α), R (Pure.pure a) (Pure.pure a)
  bind : ∀ {α β : Type} {x y : Eval α} {f g : α → Eval β}, R x y → (∀ a, R (f a) (g a)) →
    R (x >>= f) (y >>= g)
  takeReturned : ∀ {α : Type} {x y : Eval α}, R x y → ∀ f : Value → α,
    R (x.takeReturned f) (y.takeReturned f)
  interrupt : ∀ {α : Type} (i : Interrupt), R (Eval.interrupt i : Eval α) (Eval.interrupt i)
  writeLine : ∀ text, R (Eval.writeLine text) (Eval.writeLine text)
  newObject : R Eval.newObject Eval.newObject
  handOut : ∀ location v, R (Eval.handOut location v) (Eval.handOut location v)
  newScope : ∀ outer bindings, R (Eval.newScope outer bindings) (Eval.newScope outer bindings)
  bindName : ∀ scope name v, R (Eval.bindName scope name v) (Eval.bindName scope name v)
  lookup : ∀ scope name, R (Eval.lookup scope name) (Eval.lookup scope name)

namespace Congruence

variable {R : ∀ ⦃α : Type⦄, Eval α → Eval α → Prop} (hR : Congruence R)

include hR

theorem fault (location : Option Location) (f : Fault) :
    R (Eval.fault location f : Eval α) (Eval.fault location f) :=
  hR.interrupt _

/-- What can fail is related to itself. -/
theorem orFault (location : Option Location) (r : Except Fault α) :
    R (Eval.orFault location r) (Eval.orFault location r) := by
  cases r with
  | ok a => exact hR.pure a
  | error f => exact hR.fault location f

theorem settle (v : Value) : R (Eval.settle v) (Eval.settle v) := by
  unfold Eval.settle
  split
  · exact hR.interrupt _
  · exact hR.pure v

/-- Values with a number of their own are made in the same way in both evaluations. -/
theorem newArray (elements : List Value) : R (Eval.newArray elements) (Eval.newArray elements) :=
  hR.bind hR.newObject fun _ => hR.pure _

theorem newHash (entries : Entries) : R (Eval.newHash entries) (Eval.newHash entries) :=
  hR.bind hR.newObject fun _ => hR.pure _

theorem newFunction (parameters : List (Name Token)) (body : Block Token) (scope : ScopeId) :
    R (Eval.newFunction parameters body scope) (Eval.newFunction parameters body scope) :=
  hR.bind hR.newObject fun _ => hR.pure _

end Congruence

end Eval

open Eval

variable {R : ∀ ⦃α : Type⦄, Eval α → Eval α → Prop} (hR : Congruence R)

namespace Builtin

include hR

theorem related_writeAll (vs : List Value) : R (writeAll vs) (writeAll vs) := by
  induction vs with
  | nil => exact hR.pure ()
  | cons v vs ih => exact hR.bind (hR.writeLine _) fun _ => ih

/-- A built-in function is related to itself: it is made of effects. -/
theorem related_apply (b : Builtin) (location : Option Location) (arguments : List Value) :
    R (b.apply location arguments) (b.apply location arguments) := by
  unfold apply
  split
  · exact hR.bind (related_writeAll hR _) fun _ => hR.pure _
  · exact hR.orFault location _
  · exact hR.bind (hR.orFault location _) fun _ => hR.handOut location _
  · exact hR.bind (hR.orFault location _) fun _ => hR.handOut location _
  · refine hR.bind (hR.orFault location _) fun elements => ?_
    cases elements with
    | nil => exact hR.pure _
    | cons _ others => exact hR.newArray others
  · exact hR.bind (hR.orFault location _) fun _ => hR.newArray _
  · exact hR.fault location _

end Builtin

namespace Evaluation

variable {inner inner' : Inner}

/-- The relation holds between two evaluations of inner expressions. -/
def InnerRelated (R : ∀ ⦃α : Type⦄, Eval α → Eval α → Prop) (inner inner' : Inner) : Prop :=
  ∀ scope e, R (inner scope e) (inner' scope e)

include hR

/-- A name is looked up without any inner expression. -/
theorem related_identifier (scope : ScopeId) (location : Option Location) (name : String) :
    R (identifier scope location name) (identifier scope location name) := by
  refine hR.bind (hR.lookup scope name) fun found => ?_
  cases found with
  | some v => exact hR.settle v
  | none =>
    cases Builtin.ofName? name with
    | some b => exact hR.pure _
    | none => exact hR.fault location _

variable (hinner : InnerRelated R inner inner')

include hinner

/-! ### Statements -/

/-- **Statements are related**, if the expressions in them are. -/
theorem related_statement (scope : ScopeId) (s : Statement Token) :
    R (statement inner scope s) (statement inner' scope s) := by
  rcases s with ⟨tok, name, e⟩ | ⟨tok, _ | e⟩ | ⟨tok, e⟩
  · exact hR.bind (hinner scope e) fun v => hR.bind (hR.bindName scope _ v) fun _ => hR.pure _
  · exact hR.interrupt _
  · exact hR.bind (hinner scope e) fun _ => hR.interrupt _
  · exact hR.bind (hinner scope e) fun _ => hR.pure _

theorem related_statements (scope : ScopeId) (ss : List (Statement Token))
    (result : Option Value) :
    R (statements inner scope result ss) (statements inner' scope result ss) := by
  induction ss generalizing result with
  | nil => exact hR.pure _
  | cons s ss ih => exact hR.bind (related_statement hR hinner scope s) ih

theorem related_block (scope : ScopeId) (b : Block Token) :
    R (block inner scope b) (block inner' scope b) :=
  hR.bind (related_statements hR hinner scope b.statements none) fun _ => hR.pure _

/-! ### Calls -/

/-- **Related evaluations make related calls.**  The body is evaluated as its scope has it, and what
it returns is taken. -/
theorem related_invoke (location : Option Location) (callee : Value) (arguments : List Value) :
    R (invoke inner location callee arguments) (invoke inner' location callee arguments) := by
  cases callee with
  | builtin b => exact Builtin.related_apply hR b location arguments
  | function id parameters body scope =>
    simp only [invoke]
    split
    · refine hR.bind (hR.newScope _ _) fun frame => ?_
      exact hR.takeReturned (related_block hR hinner frame body) _
    · exact hR.fault location _
  | _ => exact hR.fault location _

/-! ### Expressions -/

/-- So are operands, which are evaluated in turn. -/
theorem related_operands (scope : ScopeId) (es : List (Expr Token)) :
    R (operands inner scope es) (operands inner' scope es) := by
  induction es with
  | nil => exact hR.pure _
  | cons e es ih => exact hR.bind (hinner scope e) fun _ => hR.bind ih fun _ => hR.pure _

theorem related_entries (scope : ScopeId) (pairs : List (Expr Token × Expr Token))
    (stored : Entries) :
    R (entries inner scope stored pairs) (entries inner' scope stored pairs) := by
  induction pairs generalizing stored with
  | nil => exact hR.pure _
  | cons pair pairs ih =>
    obtain ⟨k, v⟩ := pair
    refine hR.bind (hinner scope k) fun key => ?_
    cases key.hashKey? with
    | none => exact hR.fault _ _
    | some slot => exact hR.bind (hinner scope v) fun item => ih _

/-- **Related evaluations of inner expressions** make related expressions. -/
theorem related_step : InnerRelated R (step inner) (step inner') := by
  intro scope e
  cases e with
  | identifier tok name => exact related_identifier hR scope _ name
  | integer | boolean | string => exact hR.pure _
  | unary tok op e => exact hR.bind (hinner scope e) fun _ => hR.orFault _ _
  | binary tok left op right =>
    refine hR.bind (hinner scope left) fun _ => ?_
    exact hR.bind (hinner scope right) fun _ => hR.orFault _ _
  | conditional tok condition consequence alternative =>
    refine hR.bind (hinner scope condition) fun v => ?_
    split
    · exact related_block hR hinner scope consequence
    · cases alternative with
      | none => exact hR.pure _
      | some b => exact related_block hR hinner scope b
  | function tok parameters body => exact hR.newFunction parameters body scope
  | call tok callee arguments =>
    refine hR.bind (hinner scope callee) fun f => ?_
    refine hR.bind (related_operands hR hinner scope arguments) fun vs => ?_
    exact hR.bind (related_invoke hR hinner tok.location f vs) fun _ => hR.settle _
  | array tok elements =>
    exact hR.bind (related_operands hR hinner scope elements) fun _ => hR.newArray _
  | hash tok pairs =>
    exact hR.bind (related_entries hR hinner scope pairs []) fun _ => hR.newHash _
  | index tok store subscript =>
    refine hR.bind (hinner scope store) fun _ => hR.bind (hinner scope subscript) fun _ => ?_
    exact hR.bind (hR.orFault _ _) fun _ => hR.settle _

end Evaluation

include hR in
/-- **Related evaluations of expressions** make related programs. -/
theorem related_runProgram {depth depth' : Nat}
    (h : Evaluation.InnerRelated R (evaluate depth) (evaluate depth')) (scope : ScopeId)
    (program : Program Token) :
    R (runProgram depth scope program) (runProgram depth' scope program) :=
  hR.takeReturned (Evaluation.related_statements hR h scope program none) some

end MonkeyLang
