import MonkeyLang.Evaluation

/-!
# Nodes and their evaluation

Expressions, statements and blocks are evaluated in different ways.  What is true of all of them is
said of nodes.

## Main Definitions

* `Category`, `Node` — the nodes of each category
* `Node.run` — evaluates a node, which may yield nothing
* `Eval.Completes` — an evaluation that ends normally
* `InOrder` — steps that are taken one after the other

## Main Statements

* `Evaluation.statements_of_inOrder`, `Evaluation.entries_of_inOrder` — what is evaluated behind
  statements or pairs that completed
* `Evaluation.operands_interrupt` — the first interrupt among operands ends them
-/

namespace MonkeyLang

/-! ### Nodes -/

/-- The categories of nodes. -/
inductive Category where
  | expression
  | statement
  /-- Statements that are evaluated one after the other. -/
  | block

/-- The nodes of a category. -/
abbrev Node : Category → Type
  | .expression => Expr Token
  | .statement => Statement Token
  | .block => Block Token

/-- Evaluates a node in a scope, given the evaluation of expressions.  A block yields what its last
statement does. -/
def Node.run (inner : Evaluation.Inner) (scope : ScopeId) :
    {k : Category} → Node k → Eval (Option Value)
  | .expression, e => do
    let v ← inner scope e
    return some v
  | .statement, s => Evaluation.statement inner scope s
  | .block, b => Evaluation.statements inner scope none b.statements

/-! ### Normal completion -/

variable {α : Type}

/-- From the machine `m` the evaluation ends normally and leaves `m'`: neither an error nor a
`return` cuts it short, and it does not nest too deeply. -/
def Eval.Completes (x : Eval α) (m m' : Machine) : Prop :=
  ∃ a, x m = (.value a, m')

/-- One after the other, steps lead from one machine to another. -/
inductive InOrder (step : α → Machine → Machine → Prop) : List α → Machine → Machine → Prop
  | nil (m : Machine) : InOrder step [] m m
  | cons {a : α} {as : List α} {m m' m'' : Machine} (head : step a m m')
      (tail : InOrder step as m' m'') : InOrder step (a :: as) m m''

namespace Evaluation

open Eval

variable {inner : Inner} {scope : ScopeId} {m m' m'' : Machine} {i : Interrupt}

/-- The pair of a hash is evaluated normally, and its key can be used. -/
def PairCompletes (inner : Inner) (scope : ScopeId) (pair : Expr Token × Expr Token)
    (m m' : Machine) : Prop :=
  ∃ key between, inner scope pair.1 m = (.value key, between) ∧ key.hashKey?.isSome ∧
    (inner scope pair.2).Completes between m'

/-- Statements that complete one after the other leave a result to those behind them. -/
theorem statements_of_inOrder {before : List (Statement Token)}
    (h : InOrder (fun s => (statement inner scope s).Completes) before m m')
    (result : Option Value) :
    ∃ result', ∀ after,
      statements inner scope result (before ++ after) m =
        statements inner scope result' after m' := by
  induction h generalizing result with
  | nil m => exact ⟨result, fun _ => rfl⟩
  | cons head _ ih =>
    obtain ⟨r, hr⟩ := head
    obtain ⟨result', hresult'⟩ := ih r
    refine ⟨result', fun after => ?_⟩
    rw [List.cons_append, statements, bind_value hr, hresult']

/-- The pairs of a hash that complete one after the other are stored before those behind them. -/
theorem entries_of_inOrder {before : List (Expr Token × Expr Token)}
    (h : InOrder (PairCompletes inner scope) before m m') (stored : Entries) :
    ∃ stored', ∀ after,
      entries inner scope stored (before ++ after) m = entries inner scope stored' after m' := by
  induction h generalizing stored with
  | nil m => exact ⟨stored, fun _ => rfl⟩
  | @cons pair _ _ _ _ head _ ih =>
    obtain ⟨k, v⟩ := pair
    obtain ⟨key, between, hkey, hhash, item, hitem⟩ := head
    obtain ⟨slot, hslot⟩ := Option.isSome_iff_exists.1 hhash
    obtain ⟨stored', hstored'⟩ := ih (OrderedMap.insert slot (key, item) stored)
    refine ⟨stored', fun after => ?_⟩
    rw [List.cons_append, entries, bind_value hkey, hslot]
    exact (bind_value hitem _).trans (hstored' after)

/-- The first interrupt among expressions ends the evaluation of all of them. -/
theorem operands_interrupt {before : List (Expr Token)} {e : Expr Token}
    (h : InOrder (fun e => (inner scope e).Completes) before m m')
    (he : inner scope e m' = (.interrupt i, m'')) (after : List (Expr Token)) :
    operands inner scope (before ++ e :: after) m = (.interrupt i, m'') := by
  induction h with
  | nil m => rw [List.nil_append, operands, bind_interrupt he]
  | cons head _ ih =>
    obtain ⟨v, hv⟩ := head
    rw [List.cons_append, operands, bind_value hv, bind_interrupt (ih he)]

end Evaluation

end MonkeyLang
