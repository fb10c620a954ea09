import MonkeyLang.Proofs.Data

/-!
# What can be reached from a scope

An evaluation in a scope sees what is bound there and around it, what is inside of that, and,
through the functions among it, what the scopes that these captured can reach in turn.

## Main Definitions

* `Expr.names`, `Statement.names`, `Block.names` — the names that stand in a node, at any depth
* `Value.Contains` — a value, or one inside of it
* `Value.ForFunctions` — every function in a value has a property
* `Scopes.Reaches` — what scopes can be reached from a scope

## Main Statements

* `Value.forFunctions_array`, `Value.forFunctions_hash`, `Value.forFunctions_function` — the
  property of a value, from what is in it
* `Value.forFunctions_at` — an index yields nothing that was not inside
-/

namespace MonkeyLang

variable {α : Type}

/-! ### Names in nodes -/

mutual

/-- The names in the expression: those that are evaluated, bound, or names of parameters. -/
def Expr.names : Expr α → List String
  | .identifier _ name => [name]
  | .integer _ _ | .boolean _ _ | .string _ _ => []
  | .unary _ _ operand => operand.names
  | .binary _ left _ right => left.names ++ right.names
  | .conditional _ condition consequence none => condition.names ++ consequence.names
  | .conditional _ condition consequence (some alternative) =>
    condition.names ++ (consequence.names ++ alternative.names)
  | .function _ parameters body => parameters.map Name.text ++ body.names
  | .call _ callee arguments => callee.names ++ namesOfExprs arguments
  | .array _ elements => namesOfExprs elements
  | .hash _ pairs => namesOfPairs pairs
  | .index _ store subscript => store.names ++ subscript.names
termination_by structural e => e

/-- The names in the expressions. -/
def namesOfExprs : List (Expr α) → List String
  | [] => []
  | e :: es => e.names ++ namesOfExprs es
termination_by structural es => es

/-- The names in the keys and values of the pairs. -/
def namesOfPairs : List (Expr α × Expr α) → List String
  | [] => []
  | (k, v) :: pairs => k.names ++ (v.names ++ namesOfPairs pairs)
termination_by structural pairs => pairs

/-- The names in the statement. -/
def Statement.names : Statement α → List String
  | .let_ _ name value => name.text :: value.names
  | .return_ _ none => []
  | .return_ _ (some value) => value.names
  | .expression _ value => value.names
termination_by structural s => s

/-- The names in the statements. -/
def namesOfStatements : List (Statement α) → List String
  | [] => []
  | s :: ss => s.names ++ namesOfStatements ss
termination_by structural ss => ss

/-- The names in the block. -/
def Block.names : Block α → List String
  | .mk _ statements => namesOfStatements statements
termination_by structural b => b

end

/-! ### Functions in values -/

namespace Value

/-- The second value is the first one or inside of it: an element of an array, a key or an item of a
hash, or a value on its way out of a function, at any depth. -/
inductive Contains : Value → Value → Prop
  | refl (v : Value) : Contains v v
  | element {id : ObjectId} {elements : List Value} {v w : Value} (mem : v ∈ elements)
      (inside : Contains v w) : Contains (.array id elements) w
  | key {id : ObjectId} {entries : Entries} {entry : HashKey × (Value × Value)} {w : Value}
      (mem : entry ∈ entries) (inside : Contains entry.2.1 w) : Contains (.hash id entries) w
  | item {id : ObjectId} {entries : Entries} {entry : HashKey × (Value × Value)} {w : Value}
      (mem : entry ∈ entries) (inside : Contains entry.2.2 w) : Contains (.hash id entries) w
  | returned {v w : Value} (inside : Contains v w) : Contains (.returned v) w

/-- A property of a function: of its parameters, its body and the scope where it was made. -/
abbrev FunctionProperty := List (Name Token) → Block Token → ScopeId → Prop

/-- Every function in the value has the property. -/
def ForFunctions (property : FunctionProperty) (v : Value) : Prop :=
  ∀ id parameters body scope, v.Contains (.function id parameters body scope) →
    property parameters body scope

variable {property property' : FunctionProperty}

/-- What is asked of functions may be weakened, with regard to the functions that the value
contains. -/
theorem ForFunctions.mono {v : Value} (h : v.ForFunctions property)
    (hproperty : ∀ id parameters body scope, v.Contains (.function id parameters body scope) →
      property parameters body scope → property' parameters body scope) :
    v.ForFunctions property' :=
  fun id parameters body scope hinside =>
    hproperty id parameters body scope hinside (h id parameters body scope hinside)

theorem forFunctions_null : null.ForFunctions property := by
  intro id parameters body scope hinside
  cases hinside

/-- No function is in a value without parts. -/
theorem IsAtom.forFunctions {v : Value} (h : v.IsAtom) : v.ForFunctions property := by
  intro id parameters body scope hinside
  cases h <;> cases hinside

theorem forFunctions_builtin (b : Builtin) : (builtin b).ForFunctions property := by
  intro id parameters body scope hinside
  cases hinside

theorem forFunctions_error (e : RuntimeError) : (error e).ForFunctions property := by
  intro id parameters body scope hinside
  cases hinside

/-- The only function in a function is this function itself. -/
theorem forFunctions_function {id : ObjectId} {parameters : List (Name Token)} {body : Block Token}
    {scope : ScopeId} :
    (function id parameters body scope).ForFunctions property ↔ property parameters body scope := by
  constructor
  · exact fun h => h id parameters body scope (.refl _)
  · intro h id parameters body scope hinside
    cases hinside
    exact h

/-- The functions in an array are those in its elements. -/
theorem forFunctions_array {id : ObjectId} {elements : List Value} :
    (array id elements).ForFunctions property ↔ ∀ v ∈ elements, v.ForFunctions property := by
  constructor
  · exact fun h v hv id parameters body scope hinside =>
      h id parameters body scope (.element hv hinside)
  · intro h id parameters body scope hinside
    cases hinside with
    | element hv hinside => exact h _ hv id parameters body scope hinside

/-- The functions in a hash are those in its keys and items. -/
theorem forFunctions_hash {id : ObjectId} {entries : Entries} :
    (hash id entries).ForFunctions property ↔
      ∀ entry ∈ entries, entry.2.1.ForFunctions property ∧ entry.2.2.ForFunctions property := by
  constructor
  · intro h entry hentry
    constructor
    · exact fun id parameters body scope hinside =>
        h id parameters body scope (.key hentry hinside)
    · exact fun id parameters body scope hinside =>
        h id parameters body scope (.item hentry hinside)
  · intro h id parameters body scope hinside
    cases hinside with
    | key hentry hinside => exact (h _ hentry).1 id parameters body scope hinside
    | item hentry hinside => exact (h _ hentry).2 id parameters body scope hinside

theorem forFunctions_returned {v : Value} :
    (returned v).ForFunctions property ↔ v.ForFunctions property := by
  constructor
  · exact fun h id parameters body scope hinside => h id parameters body scope (.returned hinside)
  · intro h id parameters body scope hinside
    cases hinside with
    | returned hinside => exact h id parameters body scope hinside

theorem forFunctions_of_none : ∀ v ∈ (none : Option Value), v.ForFunctions property :=
  fun _ hnone => nomatch hnone

/-- What may be missing counts as null, in which there is no function. -/
theorem forFunctions_getD {found : Option Value} (h : ∀ v ∈ found, v.ForFunctions property) :
    (found.getD .null).ForFunctions property := by
  cases found with
  | none => exact forFunctions_null
  | some v => exact h v rfl

/-- An index yields nothing that was not inside. -/
theorem forFunctions_at {store subscript result : Value} (h : store.ForFunctions property)
    (hresult : store.at subscript = .ok result) : result.ForFunctions property := by
  unfold Value.at at hresult
  split at hresult
  · cases hresult
    unfold elementAt
    split
    · exact forFunctions_getD fun v hv => forFunctions_array.1 h v (List.mem_of_getElem? hv)
    · exact forFunctions_null
  · split at hresult
    · cases hresult
    · cases hresult
      refine forFunctions_getD fun v hv => ?_
      obtain ⟨entry, hfound, rfl⟩ := Option.map_eq_some_iff.1 hv
      exact (forFunctions_hash.1 h _ (OrderedMap.mem_of_find? hfound)).2
  · cases hresult

end Value

/-! ### Scopes -/

namespace Scopes

/-- **The scopes that can be reached from a scope**: this one, the one around each of them, and
those where the functions were made that are inside of what is bound in one of them. -/
inductive Reaches (s : Scopes Value) (start : ScopeId) : ScopeId → Prop
  | refl : Reaches s start start
  | outer {id around : ScopeId} (reached : Reaches s start id)
      (lies_in : s.outer id = some around) : Reaches s start around
  | captured {id made : ScopeId} {name : String} {v : Value} {number : ObjectId}
      {parameters : List (Name Token)} {body : Block Token} (reached : Reaches s start id)
      (bound : OrderedMap.find? name (s.bindings id) = some v)
      (inside : v.Contains (.function number parameters body made)) : Reaches s start made

end Scopes

end MonkeyLang
