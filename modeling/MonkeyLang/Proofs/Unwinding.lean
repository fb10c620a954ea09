import MonkeyLang.Proofs.Node

/-!
# Interrupts unwind

An error or a returned value passes through everything around the place where it arises, up to the
call or the program that takes it.  Nothing is evaluated on the way.

## Main Definitions

* `Layer` — a node with a hole for a node right inside it
* `Layer.plug` — the node with its hole filled
* `Layer.Reaches` — what is evaluated before the hole completes
* `Context` — layers inside each other, as many as there may be, with `Context.plug` and
  `Context.Reaches`
* `Interrupt.taken` — what a call or a program makes of an interrupt

## Main Statements

* `Layer.run_plug_interrupt` — an interrupt passes through one layer
* `Context.run_plug_interrupt` — and so through all of them
* `interrupt_unwinds` — what calls and programs make of an interrupt in a context

## Design Notes

There is no layer for the body of a function literal: the body is evaluated by calls of the
function, not where the literal stands.

What is in the hole of an expression is evaluated one level deeper than the expression, and what is
in the hole of a statement or a block is not.  So a context says how many levels it takes
(`Context.depth`), and nothing depends on the depth limit.
-/

namespace MonkeyLang

open Evaluation

/-! ### Layers -/

/-- `Layer j k` is a node of the category `k` with a hole in it for one of the category `j`.  The
nodes that stand before the hole and behind it are part of the layer. -/
inductive Layer : Category → Category → Type
  | operand (t : Token) (op : UnaryOp) : Layer .expression .expression
  | left (t : Token) (op : BinaryOp) (right : Expr Token) : Layer .expression .expression
  | right (t : Token) (left : Expr Token) (op : BinaryOp) : Layer .expression .expression
  | condition (t : Token) (consequence : Block Token) (alternative : Option (Block Token)) :
    Layer .expression .expression
  | consequence (t : Token) (condition : Expr Token) (alternative : Option (Block Token)) :
    Layer .block .expression
  | alternative (t : Token) (condition : Expr Token) (consequence : Block Token) :
    Layer .block .expression
  | callee (t : Token) (arguments : List (Expr Token)) : Layer .expression .expression
  | argument (t : Token) (callee : Expr Token) (before after : List (Expr Token)) :
    Layer .expression .expression
  | element (t : Token) (before after : List (Expr Token)) : Layer .expression .expression
  | key (t : Token) (before : List (Expr Token × Expr Token)) (item : Expr Token)
      (after : List (Expr Token × Expr Token)) : Layer .expression .expression
  | item (t : Token) (before : List (Expr Token × Expr Token)) (key : Expr Token)
      (after : List (Expr Token × Expr Token)) : Layer .expression .expression
  | store (t : Token) (subscript : Expr Token) : Layer .expression .expression
  | subscript (t : Token) (store : Expr Token) : Layer .expression .expression
  /-- The value of a `let`. -/
  | bound (t : Token) (name : Name Token) : Layer .expression .statement
  /-- The value of a `return`. -/
  | returned (t : Token) : Layer .expression .statement
  /-- An expression that stands as a statement. -/
  | value (t : Token) : Layer .expression .statement
  | statement (t : Token) (before after : List (Statement Token)) : Layer .statement .block

namespace Layer

/-- Fills the hole. -/
def plug {j k : Category} : Layer j k → Node j → Node k
  | .operand t op, e => Expr.unary t op e
  | .left t op b, a => Expr.binary t a op b
  | .right t a op, b => Expr.binary t a op b
  | .condition t yes no, e => Expr.conditional t e yes no
  | .consequence t e no, b => Expr.conditional t e b no
  | .alternative t e yes, b => Expr.conditional t e yes (some b)
  | .callee t es, e => Expr.call t e es
  | .argument t f before after, e => Expr.call t f (before ++ e :: after)
  | .element t before after, e => Expr.array t (before ++ e :: after)
  | .key t before v after, k => Expr.hash t (before ++ (k, v) :: after)
  | .item t before k after, v => Expr.hash t (before ++ (k, v) :: after)
  | .store t i, e => Expr.index t e i
  | .subscript t e, i => Expr.index t e i
  | .bound t name, e => Statement.let_ t name e
  | .returned t, e => Statement.return_ t (some e)
  | .value t, e => Statement.expression t e
  | .statement t before after, s => Block.mk t (before ++ s :: after)

/-- Everything in the layer that is evaluated before the hole completes: from the machine `m`, the
evaluation gets to the hole with the machine `m'`. -/
def Reaches (inner : Inner) (scope : ScopeId) {j k : Category} (layer : Layer j k)
    (m m' : Machine) : Prop :=
  match layer with
  | .operand .. | .left .. | .condition .. | .callee .. | .store .. => m' = m
  | .bound .. | .returned .. | .value .. => m' = m
  | .right _ a _ => (inner scope a).Completes m m'
  | .consequence _ e _ => ∃ v, inner scope e m = (.value v, m') ∧ v.isTruthy = true
  | .alternative _ e _ => ∃ v, inner scope e m = (.value v, m') ∧ v.isTruthy = false
  | .argument _ f before _ =>
    ∃ between, (inner scope f).Completes m between ∧
      InOrder (fun e => (inner scope e).Completes) before between m'
  | .element _ before _ => InOrder (fun e => (inner scope e).Completes) before m m'
  | .key _ before _ _ => InOrder (PairCompletes inner scope) before m m'
  | .item _ before k _ =>
    ∃ between v, InOrder (PairCompletes inner scope) before m between ∧
      inner scope k between = (.value v, m') ∧ v.hashKey?.isSome
  | .subscript _ e => (inner scope e).Completes m m'
  | .statement _ before _ =>
    InOrder (fun s => (Evaluation.statement inner scope s).Completes) before m m'

end Layer

/-! ### An interrupt in a layer -/

namespace Node

variable {inner : Inner} {scope : ScopeId} {m m' : Machine} {i : Interrupt}

/-- An expression ends in an interrupt as a node exactly when it does as an expression. -/
theorem run_expression_interrupt_iff {e : Node .expression} :
    e.run inner scope m = (.interrupt i, m') ↔ inner scope e m = (.interrupt i, m') := by
  show (inner scope e >>= fun v => pure (some v)) m = _ ↔ _
  constructor
  · intro h
    rw [Eval.bind_apply] at h
    generalize inner scope e m = ending at h
    obtain ⟨outcome, m₁⟩ := ending
    cases outcome with
    | value v => cases h
    | interrupt i' =>
      cases h
      rfl
    | tooDeep => cases h
  · intro h
    exact Eval.bind_interrupt h _

end Node

/-- How many levels deeper than a node of this category its parts are evaluated. -/
def Category.levels : Category → Nat
  | .expression => 1
  | .statement | .block => 0

namespace Layer

open Eval

variable {depth : Nat} {scope : ScopeId} {m m' m'' : Machine} {i : Interrupt}

/-- **An interrupt passes through one layer.**  The interrupt is handed on as it is, and so is the
machine: what stands behind the hole is not evaluated. -/
theorem run_plug_interrupt {j k : Category} (layer : Layer j k) {n : Node j}
    (hreach : layer.Reaches (evaluate depth) scope m m')
    (hhole : n.run (evaluate depth) scope m' = (.interrupt i, m'')) :
    (layer.plug n).run (evaluate (depth + k.levels)) scope m = (.interrupt i, m'') := by
  -- In each layer, the evaluation completes up to the hole, and the first bind behind it stops.
  cases layer with
  | operand | left | condition | callee | store =>
    -- Nothing is evaluated before the hole.
    obtain rfl : m' = m := hreach
    rw [Node.run_expression_interrupt_iff] at hhole ⊢
    exact bind_interrupt hhole _
  | bound | returned | value =>
    obtain rfl : m' = m := hreach
    rw [Node.run_expression_interrupt_iff] at hhole
    exact bind_interrupt hhole _
  | right | subscript =>
    obtain ⟨v, hv⟩ := hreach
    rw [Node.run_expression_interrupt_iff] at hhole ⊢
    exact (bind_value hv _).trans (bind_interrupt hhole _)
  | consequence t condition alternative =>
    obtain ⟨v, hv, htrue⟩ := hreach
    rw [Node.run_expression_interrupt_iff]
    refine (bind_value hv _).trans ?_
    rw [if_pos htrue]
    exact bind_interrupt hhole _
  | alternative t condition consequence =>
    obtain ⟨v, hv, hfalse⟩ := hreach
    rw [Node.run_expression_interrupt_iff]
    refine (bind_value hv _).trans ?_
    rw [hfalse, if_neg Bool.false_ne_true]
    exact bind_interrupt hhole _
  | argument t callee before after =>
    obtain ⟨between, ⟨f, hf⟩, hbefore⟩ := hreach
    rw [Node.run_expression_interrupt_iff] at hhole ⊢
    refine (bind_value hf _).trans ?_
    exact bind_interrupt (operands_interrupt hbefore hhole after) _
  | element t before after =>
    rw [Node.run_expression_interrupt_iff] at hhole ⊢
    exact bind_interrupt (operands_interrupt hreach hhole after) _
  | key t before item after =>
    rw [Node.run_expression_interrupt_iff] at hhole ⊢
    obtain ⟨stored, hstored⟩ := entries_of_inOrder hreach []
    refine bind_interrupt ((hstored _).trans ?_) _
    exact bind_interrupt hhole _
  | item t before key after =>
    obtain ⟨between, v, hbefore, hkey, hhash⟩ := hreach
    obtain ⟨slot, hslot⟩ := Option.isSome_iff_exists.1 hhash
    rw [Node.run_expression_interrupt_iff] at hhole ⊢
    obtain ⟨stored, hstored⟩ := entries_of_inOrder hbefore []
    refine bind_interrupt ((hstored _).trans ?_) _
    rw [entries, bind_value hkey, hslot]
    exact bind_interrupt hhole _
  | statement t before after =>
    obtain ⟨result, hresult⟩ := statements_of_inOrder hreach none
    exact (hresult _).trans (bind_interrupt hhole _)

end Layer

/-! ### Contexts -/

/-- Layers inside each other, from the outside to the inside: the node has the category `k`, and the
hole is for one of the category `j`. -/
inductive Context : Category → Category → Type
  | hole {j : Category} : Context j j
  | layer {i j k : Category} (outer : Layer j k) (inside : Context i j) : Context i k

namespace Context

/-- Fills the hole. -/
def plug {j k : Category} : Context j k → Node j → Node k
  | .hole, n => n
  | .layer outer inside, n => outer.plug (inside.plug n)

/-- How many levels deeper than the whole node the hole is evaluated. -/
def depth {j k : Category} : Context j k → Nat
  | .hole => 0
  | .layer (k := k) _ inside => inside.depth + k.levels

/-- Everything in the context that is evaluated before the hole completes: from the machine `m`, the
evaluation gets to the hole with the machine `m'`, where `levels` are left. -/
def Reaches (levels : Nat) (scope : ScopeId) {j k : Category} :
    Context j k → Machine → Machine → Prop
  | .hole, m, m' => m' = m
  | .layer outer inside, m, m' =>
    ∃ between, outer.Reaches (evaluate (levels + inside.depth)) scope m between ∧
      inside.Reaches levels scope between m'

variable {levels : Nat} {scope : ScopeId} {m m' m'' : Machine} {i : Interrupt}

/-- **An interrupt passes through a context**, however many layers it has. -/
theorem run_plug_interrupt {j k : Category} (c : Context j k) {n : Node j}
    (hreach : c.Reaches levels scope m m')
    (hhole : n.run (evaluate levels) scope m' = (.interrupt i, m'')) :
    (c.plug n).run (evaluate (levels + c.depth)) scope m = (.interrupt i, m'') := by
  induction c generalizing m with
  | hole =>
    obtain rfl : m' = m := hreach
    exact hhole
  | layer outer inside ih =>
    obtain ⟨between, houter, hinside⟩ := hreach
    -- The levels of the outer layer are counted last.
    rw [depth, ← Nat.add_assoc]
    exact outer.run_plug_interrupt houter (ih hinside)

end Context

/-! ### Calls and programs -/

/-- What a call or a program makes of an interrupt: a returned value becomes its own value, and an
error stays one. -/
def Interrupt.taken {α : Type} (f : Value → α) : Interrupt → Outcome α
  | .error e => .interrupt (.error e)
  | .returned v => .value (f v)

theorem Eval.takeReturned_interrupt {α : Type} {x : Eval α} {m m' : Machine} {i : Interrupt}
    (h : x m = (.interrupt i, m')) (f : Value → α) : x.takeReturned f m = (i.taken f, m') := by
  unfold takeReturned
  rw [h]
  cases i <;> rfl

/-- **Interrupts unwind.**  Suppose that a node ends in an interrupt, from the machine `m'`.  In
every context whose hole is reached with this machine, the whole ends in the same interrupt and
leaves the same machine.  If the context is a program, the program takes the interrupt, and if it is
the body of a function, the call does: what was returned is its value, and an error is its error. -/
theorem interrupt_unwinds {j : Category} {n : Node j} {levels : Nat} {scope : ScopeId}
    {m' m'' : Machine} {i : Interrupt}
    (hhole : n.run (evaluate levels) scope m' = (.interrupt i, m'')) :
    (∀ {k : Category} (c : Context j k) (m : Machine), c.Reaches levels scope m m' →
      (c.plug n).run (evaluate (levels + c.depth)) scope m = (.interrupt i, m'')) ∧
    (∀ (c : Context j .block) (m : Machine), c.Reaches levels scope m m' →
      runProgram (levels + c.depth) scope (Block.statements (c.plug n)) m =
        (i.taken some, m'')) ∧
    ∀ (c : Context j .block) (location : Option Location) (object : ObjectId)
      (parameters : List (Name Token)) (outer : ScopeId) (arguments : List Value) (m m₁ : Machine),
      arguments.length = parameters.length →
      Eval.newScope (some outer) ((parameters.map fun p => p.text).zip arguments) m =
        (.value scope, m₁) →
      c.Reaches levels scope m₁ m' →
      invoke (evaluate (levels + c.depth)) location
        (.function object parameters (c.plug n) outer) arguments m = (i.taken id, m'') := by
  refine ⟨fun c m hreach => c.run_plug_interrupt hreach hhole, fun c m hreach => ?_, ?_⟩
  · exact Eval.takeReturned_interrupt (c.run_plug_interrupt hreach hhole) some
  · intro c location object parameters outer arguments m m₁ hlength hscope hreach
    rw [invoke, if_pos hlength, Eval.bind_value hscope]
    have hbody : block (evaluate (levels + c.depth)) scope (c.plug n) m₁ = (.interrupt i, m'') :=
      Eval.bind_interrupt (c.run_plug_interrupt hreach hhole) _
    exact Eval.takeReturned_interrupt hbody id

/-- In `let x = 1; puts([x, if (true) { x; return -x; 3 }, puts(2)]);` the `return` is the end of
everything, whether this is a program or the body of a function.  Of what it leaves behind, only the
binding of `x` is new. -/
theorem interrupt_unwinds_array :
    let t : Token := ⟨.eof, none⟩
    let name (text : String) : Expr Token := .identifier t text
    let hole : Node .statement := Statement.return_ t (some (.unary t .negate (name "x")))
    let c : Context .statement .block :=
      .layer (.statement t [.let_ t ⟨t, "x"⟩ (.integer t 1)] []) <|
      .layer (.value t) <|
      .layer (.argument t (name "puts") [] []) <|
      .layer (.element t [name "x"] [.call t (name "puts") [.integer t 2]]) <|
      .layer (.consequence t (.boolean t true) none) <|
      .layer (.statement t [.expression t (name "x")] [.expression t (.integer t 3)]) .hole
    let m : Machine := { scopes := Scopes.empty.create none }
    let framed : Machine := { m with scopes := m.scopes.create (some 0) [("y", .null)] }
    let bound : Machine := { framed with scopes := framed.scopes.bind 1 "x" (.integer 1) }
    hole.run (evaluate 2) 1 bound = (.interrupt (.returned (.integer (-1))), bound) ∧
      c.Reaches 2 1 framed bound ∧
      runProgram 5 1 (Block.statements (c.plug hole)) framed =
        (.value (some (.integer (-1))), bound) ∧
      Eval.newScope (some 0) [("y", .null)] m = (.value 1, framed) ∧
      invoke (evaluate 5) none (.function 7 [⟨t, "y"⟩] (c.plug hole) 0) [.null] m =
        (.value (.integer (-1)), bound) := by
  intro t name hole c m framed bound
  have hhole : hole.run (evaluate 2) 1 bound = (.interrupt (.returned (.integer (-1))), bound) :=
    rfl
  have hreach : c.Reaches 2 1 framed bound :=
    ⟨bound, .cons ⟨none, rfl⟩ (.nil _), bound, rfl, bound, ⟨bound, ⟨_, rfl⟩, .nil _⟩, bound,
      .cons ⟨_, rfl⟩ (.nil _), bound, ⟨_, rfl, rfl⟩, bound, .cons ⟨_, rfl⟩ (.nil _), rfl⟩
  obtain ⟨-, hprogram, hcall⟩ := interrupt_unwinds hhole
  exact ⟨hhole, hreach, hprogram c framed hreach, rfl,
    hcall c none 7 [⟨t, "y"⟩] 0 [.null] m framed rfl rfl hreach⟩

end MonkeyLang
