import MonkeyLang.Evaluation

/-!
# Rules of evaluation

What an expression or a block does, said in terms of what its parts do.  A run of a program is
followed with these rules, one step after the other.

## Main Statements

* `Eval.settle_eq`, `Eval.handOut_eq` — what is no interrupt goes through
* `Eval.bind_apply_congr`, `Eval.takeReturned_congr` — evaluations that go the same way
* `evaluate_identifier`, `evaluate_builtin` — names
* `evaluate_binary` — operators between two operands
* `evaluate_call`, `evaluate_call_pair` — calls, and what they are once their parts are evaluated
* `Evaluation.invoke_function` — the call of a function
* `Evaluation.block_expression`, `Evaluation.block_cons` — blocks, statement by statement

## Design Notes

Evaluations are a lawful monad, so that a sequence inside a sequence can be taken apart wherever it
ends.
-/

namespace MonkeyLang

variable {m m₁ m₂ : Machine}

/-! ### Evaluations -/

namespace Eval

variable {α β : Type} {x y : Eval α}

instance : LawfulMonad Eval := by
  refine LawfulMonad.mk' Eval (fun x => ?_) (fun _ _ => rfl) fun x f g => ?_
  · funext m
    show (x >>= fun a => pure a) m = x m
    rw [bind_apply]
    cases x m with
    | mk outcome m' => cases outcome <;> rfl
  · funext m
    rw [bind_apply, bind_apply, bind_apply]
    cases x m with
    | mk outcome m' => cases outcome <;> rfl

/-- What starts with evaluations that go the same way goes the same way. -/
theorem bind_apply_congr (h : x m₁ = y m₂) (f : α → Eval β) :
    (x >>= f) m₁ = (y >>= f) m₂ := by
  rw [bind_apply, bind_apply, h]

theorem takeReturned_congr (h : x m₁ = y m₂) (f : Value → α) :
    x.takeReturned f m₁ = y.takeReturned f m₂ := by
  unfold Eval.takeReturned
  rw [h]

theorem takeReturned_value {a : α} (h : x m = (.value a, m₁)) (f : Value → α) :
    x.takeReturned f m = (.value a, m₁) :=
  takeReturned_congr (y := pure a) h f

theorem settle_eq {v : Value} (hv : v.interrupt? = none) : settle v = pure v := by
  unfold settle
  rw [hv]

theorem handOut_eq {v : Value} (hv : v.interrupt? = none) (location : Option Location) :
    handOut location v = pure v := by
  cases v with
  | error e => cases hv
  | _ => rfl

end Eval

open Eval

variable {depth : Nat} {scope : ScopeId} {t : Token}

/-! ### Names -/

theorem evaluate_identifier {name : String} {v : Value} (h : m.scopes.lookup scope name = some v)
    (hv : v.interrupt? = none) :
    evaluate (depth + 1) scope (.identifier t name) m = (.value v, m) := by
  have hlookup : Eval.lookup scope name m = (.value (some v), m) := by rw [Eval.lookup, h]
  refine (bind_value hlookup _).trans ?_
  show settle v m = _
  rw [settle_eq hv]
  rfl

theorem evaluate_builtin (b : Builtin) (h : m.scopes.lookup scope b.name = none) :
    evaluate (depth + 1) scope (.identifier t b.name) m = (.value (.builtin b), m) := by
  have hlookup : Eval.lookup scope b.name m = (.value none, m) := by rw [Eval.lookup, h]
  refine (bind_value hlookup _).trans ?_
  simp only [Builtin.ofName?_name, pure_apply]

/-! ### Operators -/

/-- Both operands are evaluated, from left to right, before the operator is applied. -/
theorem evaluate_binary {op : BinaryOp} {left right : Expr Token} {a b : Value}
    (hleft : evaluate depth scope left m = (.value a, m₁))
    (hright : evaluate depth scope right m₁ = (.value b, m₂)) :
    evaluate (depth + 1) scope (.binary t left op right) m =
      orFault t.location (op.apply a b) m₂ :=
  (bind_value hleft _).trans (bind_value hright _)

/-! ### Calls -/

theorem evaluate_call {callee : Expr Token} {arguments : List (Expr Token)} {f : Value}
    {vs : List Value} (hcallee : evaluate depth scope callee m = (.value f, m₁))
    (harguments : Evaluation.operands (evaluate depth) scope arguments m₁ = (.value vs, m₂)) :
    evaluate (depth + 1) scope (.call t callee arguments) m =
      (Evaluation.invoke (evaluate depth) t.location f vs >>= settle) m₂ :=
  (bind_value hcallee _).trans (bind_value harguments _)

/-- A call with two arguments, the first of which is evaluated already. -/
theorem evaluate_call_pair {callee e e' : Expr Token} {f v : Value}
    (hcallee : evaluate depth scope callee m = (.value f, m₁))
    (he : evaluate depth scope e m₁ = (.value v, m₂)) :
    evaluate (depth + 1) scope (.call t callee [e, e']) m =
      (evaluate depth scope e' >>= fun w =>
        Evaluation.invoke (evaluate depth) t.location f [v, w] >>= settle) m₂ := by
  refine (bind_value hcallee _).trans ?_
  simp only [Evaluation.operands, bind_assoc, pure_bind]
  exact bind_value he _

namespace Evaluation

/-- A call of a function with as many arguments as it has parameters. -/
theorem invoke_function {number : ObjectId} {parameters : List (Name Token)} {body : Block Token}
    {home : ScopeId} {arguments : List Value} (h : arguments.length = parameters.length)
    (location : Option Location) :
    invoke (evaluate depth) location (.function number parameters body home) arguments m =
      (block (evaluate depth) m.scopes.size body).takeReturned id
        { m with
          scopes :=
            m.scopes.create (some home) ((parameters.map fun p => p.text).zip arguments) } := by
  rw [invoke, if_pos h]
  rfl

/-! ### Blocks -/

variable {inner : Inner} {brace : Token}

/-- A block that is one expression. -/
theorem block_expression (e : Expr Token) :
    block inner scope (.mk brace [.expression t e]) = inner scope e := by
  simp only [block, Block.statements, statements, statement, bind_assoc, pure_bind,
    Option.getD_some, bind_pure]

/-- A block goes on with its second statement when the first one has run. -/
theorem block_cons {s s' : Statement Token} {rest : List (Statement Token)}
    {result : Option Value} (h : statement inner scope s m = (.value result, m₁)) :
    block inner scope (.mk brace (s :: s' :: rest)) m =
      block inner scope (.mk brace (s' :: rest)) m₁ := by
  have hstatements : statements inner scope none (s :: s' :: rest) m =
      statements inner scope none (s' :: rest) m₁ := bind_value h _
  exact bind_apply_congr hstatements _

end Evaluation

end MonkeyLang
