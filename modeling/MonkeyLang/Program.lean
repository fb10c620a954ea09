import MonkeyLang.Operator

/-!
# Programs

The tree of a program: expressions, statements and blocks.

## Main Definitions

* `Expr`, `Statement`, `Block` — the tree, each node with a mark of type `α`
* `Name` — a name where it is introduced
* `Program` — the statements of a whole source
* `Expr.map`, `Statement.map`, `Block.map` — change of marks
* `Program.erase` — the bare tree, without marks

## Design Notes

Every node is marked.  A tree that was read from a source is marked with tokens: the operator of a
unary or binary expression, the opening parenthesis of a call, the opening bracket of an index or an
array, the opening brace of a hash or a block, and the first token of everything else.  Parentheses
leave no node, so two trees with different marks can be the same program; `erase` tells.
-/

namespace MonkeyLang

/-- A name at the place where it is introduced: a parameter, or the left side of a binding. -/
structure Name (α : Type) where
  mark : α
  text : String

mutual

/-- Expressions. -/
inductive Expr (α : Type) where
  | identifier (mark : α) (name : String)
  | integer (mark : α) (value : Nat)
  | boolean (mark : α) (value : Bool)
  | string (mark : α) (value : String)
  | unary (mark : α) (op : UnaryOp) (operand : Expr α)
  | binary (mark : α) (left : Expr α) (op : BinaryOp) (right : Expr α)
  | conditional (mark : α) (condition : Expr α) (consequence : Block α)
      (alternative : Option (Block α))
  | function (mark : α) (parameters : List (Name α)) (body : Block α)
  | call (mark : α) (callee : Expr α) (arguments : List (Expr α))
  | array (mark : α) (elements : List (Expr α))
  | hash (mark : α) (pairs : List (Expr α × Expr α))
  | index (mark : α) (store : Expr α) (subscript : Expr α)

/-- Statements. -/
inductive Statement (α : Type) where
  | let_ (mark : α) (name : Name α) (value : Expr α)
  | return_ (mark : α) (value : Option (Expr α))
  | expression (mark : α) (value : Expr α)

/-- Statements between braces. -/
inductive Block (α : Type) where
  | mk (mark : α) (statements : List (Statement α))

end

/-- The statements of a whole source. -/
abbrev Program (α : Type) := List (Statement α)

variable {α β : Type}

/-! ### Marks -/

/-- The mark of an expression's own node. -/
def Expr.mark : Expr α → α
  | .identifier mark _ | .integer mark _ | .boolean mark _ | .string mark _
  | .unary mark _ _ | .binary mark _ _ _ | .conditional mark _ _ _ | .function mark _ _
  | .call mark _ _ | .array mark _ | .hash mark _ | .index mark _ _ => mark

/-- The mark of a block. -/
def Block.mark : Block α → α
  | .mk mark _ => mark

/-- The statements of a block. -/
def Block.statements : Block α → List (Statement α)
  | .mk _ statements => statements

/-- Changes the mark of a name. -/
def Name.map (f : α → β) (name : Name α) : Name β :=
  ⟨f name.mark, name.text⟩

mutual

/-- Changes every mark of an expression. -/
def Expr.map (f : α → β) : Expr α → Expr β
  | .identifier mark name => .identifier (f mark) name
  | .integer mark value => .integer (f mark) value
  | .boolean mark value => .boolean (f mark) value
  | .string mark value => .string (f mark) value
  | .unary mark op operand => .unary (f mark) op (operand.map f)
  | .binary mark left op right => .binary (f mark) (left.map f) op (right.map f)
  | .conditional mark condition consequence none =>
    .conditional (f mark) (condition.map f) (consequence.map f) none
  | .conditional mark condition consequence (some alternative) =>
    .conditional (f mark) (condition.map f) (consequence.map f) (some (alternative.map f))
  | .function mark parameters body =>
    .function (f mark) (parameters.map (Name.map f)) (body.map f)
  | .call mark callee arguments => .call (f mark) (callee.map f) (mapExprs f arguments)
  | .array mark elements => .array (f mark) (mapExprs f elements)
  | .hash mark pairs => .hash (f mark) (mapPairs f pairs)
  | .index mark store subscript => .index (f mark) (store.map f) (subscript.map f)
termination_by structural e => e

/-- Changes every mark of a list of expressions. -/
def mapExprs (f : α → β) : List (Expr α) → List (Expr β)
  | [] => []
  | e :: es => e.map f :: mapExprs f es
termination_by structural es => es

/-- Changes every mark of a list of pairs of expressions. -/
def mapPairs (f : α → β) : List (Expr α × Expr α) → List (Expr β × Expr β)
  | [] => []
  | (k, v) :: pairs => (k.map f, v.map f) :: mapPairs f pairs
termination_by structural pairs => pairs

/-- Changes every mark of a statement. -/
def Statement.map (f : α → β) : Statement α → Statement β
  | .let_ mark name value => .let_ (f mark) (name.map f) (value.map f)
  | .return_ mark none => .return_ (f mark) none
  | .return_ mark (some value) => .return_ (f mark) (some (value.map f))
  | .expression mark value => .expression (f mark) (value.map f)
termination_by structural s => s

/-- Changes every mark of a list of statements. -/
def mapStatements (f : α → β) : List (Statement α) → List (Statement β)
  | [] => []
  | s :: ss => s.map f :: mapStatements f ss
termination_by structural ss => ss

/-- Changes every mark of a block. -/
def Block.map (f : α → β) : Block α → Block β
  | .mk mark statements => .mk (f mark) (mapStatements f statements)
termination_by structural b => b

end

theorem mapExprs_eq_map (f : α → β) (es : List (Expr α)) :
    mapExprs f es = es.map (Expr.map f) := by
  induction es with
  | nil => rfl
  | cons e es ih => simp [mapExprs, ih]

theorem mapPairs_eq_map (f : α → β) (pairs : List (Expr α × Expr α)) :
    mapPairs f pairs = pairs.map fun (k, v) => (k.map f, v.map f) := by
  induction pairs with
  | nil => rfl
  | cons pair pairs ih => simp [mapPairs, ih]

theorem mapStatements_eq_map (f : α → β) (ss : List (Statement α)) :
    mapStatements f ss = ss.map (Statement.map f) := by
  induction ss with
  | nil => rfl
  | cons s ss ih => simp [mapStatements, ih]

/-- A change of marks changes the mark of the node in front as well. -/
@[simp] theorem Expr.mark_map (f : α → β) (e : Expr α) : (e.map f).mark = f e.mark := by
  cases e with
  | conditional mark condition consequence alternative =>
    cases alternative <;> simp [Expr.map, Expr.mark]
  | _ => simp [Expr.map, Expr.mark]

/-! ### Bare trees -/

/-- A program without its marks. -/
def Program.erase (program : Program α) : Program Unit :=
  mapStatements (fun _ => ()) program

/-- An expression without its marks. -/
def Expr.erase (e : Expr α) : Expr Unit := e.map fun _ => ()

/-- A block without its marks. -/
def Block.erase (b : Block α) : Block Unit := b.map fun _ => ()

end MonkeyLang
