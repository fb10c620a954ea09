import MonkeyLang.Program

/-!
# Marks

Changing the marks of a tree behaves as changing the items of a list does.

## Main Statements

* `Expr.map_map`, `Statement.map_map`, `Block.map_map` — one change after another is one change
* `Expr.map_id`, `Statement.map_id`, `Block.map_id` — a change that changes nothing
* `Expr.exists_of_map_eq_array`, `Expr.exists_of_map_eq_hash` and others — the shape of a tree is
  seen in what it is changed into
* `Program.map_const_of_erase_eq` — with one mark on every node, a program says as much as without
  marks
-/

namespace MonkeyLang

variable {α β γ : Type}

/-! ### One change after another -/

@[simp] theorem Name.map_map (f : α → β) (g : β → γ) (name : Name α) :
    (name.map f).map g = name.map fun a => g (f a) := rfl

/-- Changing the marks of names twice is changing them once. -/
theorem Name.map_names (f : α → β) (g : β → γ) (names : List (Name α)) :
    (names.map (Name.map f)).map (Name.map g) = names.map (Name.map fun a => g (f a)) := by
  rw [List.map_map]
  rfl

mutual

/-- **Two changes of marks are one**, in every form of tree. -/
theorem Expr.map_map (f : α → β) (g : β → γ) :
    (e : Expr α) → (e.map f).map g = e.map fun a => g (f a)
  | .identifier _ _ | .integer _ _ | .boolean _ _ | .string _ _ => rfl
  | .unary _ _ operand => by
    simp only [Expr.map, operand.map_map f g]
  | .binary _ left _ right => by
    simp only [Expr.map, left.map_map f g, right.map_map f g]
  | .conditional _ condition consequence none => by
    simp only [Expr.map, condition.map_map f g, consequence.map_map f g]
  | .conditional _ condition consequence (some alternative) => by
    simp only [Expr.map, condition.map_map f g, consequence.map_map f g, alternative.map_map f g]
  | .function _ parameters body => by
    simp only [Expr.map, Name.map_names, body.map_map f g]
  | .call _ callee arguments => by
    simp only [Expr.map, callee.map_map f g, mapExprs_map f g arguments]
  | .array _ elements => by
    simp only [Expr.map, mapExprs_map f g elements]
  | .hash _ pairs => by
    simp only [Expr.map, mapPairs_map f g pairs]
  | .index _ store subscript => by
    simp only [Expr.map, store.map_map f g, subscript.map_map f g]

theorem mapExprs_map (f : α → β) (g : β → γ) :
    (es : List (Expr α)) → mapExprs g (mapExprs f es) = mapExprs (fun a => g (f a)) es
  | [] => rfl
  | e :: es => by
    simp only [mapExprs, e.map_map f g, mapExprs_map f g es]

theorem mapPairs_map (f : α → β) (g : β → γ) : (pairs : List (Expr α × Expr α)) →
    mapPairs g (mapPairs f pairs) = mapPairs (fun a => g (f a)) pairs
  | [] => rfl
  | (k, v) :: pairs => by
    simp only [mapPairs, k.map_map f g, v.map_map f g, mapPairs_map f g pairs]

theorem Statement.map_map (f : α → β) (g : β → γ) :
    (s : Statement α) → (s.map f).map g = s.map fun a => g (f a)
  | .let_ _ _ value => by
    simp only [Statement.map, Name.map_map, value.map_map f g]
  | .return_ _ none => rfl
  | .return_ _ (some value) => by
    simp only [Statement.map, value.map_map f g]
  | .expression _ value => by
    simp only [Statement.map, value.map_map f g]

/-- The same for statements in turn, as a program is. -/
theorem mapStatements_map (f : α → β) (g : β → γ) : (ss : List (Statement α)) →
    mapStatements g (mapStatements f ss) = mapStatements (fun a => g (f a)) ss
  | [] => rfl
  | s :: ss => by
    simp only [mapStatements, s.map_map f g, mapStatements_map f g ss]

theorem Block.map_map (f : α → β) (g : β → γ) :
    (b : Block α) → (b.map f).map g = b.map fun a => g (f a)
  | .mk _ statements => by
    simp only [Block.map, mapStatements_map f g statements]

end

/-! ### No change -/

@[simp] theorem Name.map_id (name : Name α) : (name.map fun a => a) = name := rfl

theorem Name.map_names_id (names : List (Name α)) : (names.map (Name.map fun a => a)) = names :=
  List.map_id names

mutual

/-- **A tree keeps its marks** if each of them is kept, in every form of tree. -/
theorem Expr.map_id : (e : Expr α) → (e.map fun a => a) = e
  | .identifier _ _ | .integer _ _ | .boolean _ _ | .string _ _ => rfl
  | .unary _ _ operand => by
    rw [Expr.map, operand.map_id]
  | .binary _ left _ right => by
    rw [Expr.map, left.map_id, right.map_id]
  | .conditional _ condition consequence none => by
    rw [Expr.map, condition.map_id, consequence.map_id]
  | .conditional _ condition consequence (some alternative) => by
    rw [Expr.map, condition.map_id, consequence.map_id, alternative.map_id]
  | .function _ parameters body => by
    rw [Expr.map, Name.map_names_id, body.map_id]
  | .call _ callee arguments => by
    rw [Expr.map, callee.map_id, mapExprs_id arguments]
  | .array _ elements => by
    rw [Expr.map, mapExprs_id elements]
  | .hash _ pairs => by
    rw [Expr.map, mapPairs_id pairs]
  | .index _ store subscript => by
    rw [Expr.map, store.map_id, subscript.map_id]

theorem mapExprs_id : (es : List (Expr α)) → mapExprs (fun a => a) es = es
  | [] => rfl
  | e :: es => by
    rw [mapExprs, e.map_id, mapExprs_id es]

theorem mapPairs_id : (pairs : List (Expr α × Expr α)) → mapPairs (fun a => a) pairs = pairs
  | [] => rfl
  | (k, v) :: pairs => by
    rw [mapPairs, k.map_id, v.map_id, mapPairs_id pairs]

theorem Statement.map_id : (s : Statement α) → (s.map fun a => a) = s
  | .let_ _ _ value => by
    rw [Statement.map, Name.map_id, value.map_id]
  | .return_ _ none => rfl
  | .return_ _ (some value) => by
    rw [Statement.map, value.map_id]
  | .expression _ value => by
    rw [Statement.map, value.map_id]

/-- The same for statements in turn. -/
theorem mapStatements_id : (ss : List (Statement α)) → mapStatements (fun a => a) ss = ss
  | [] => rfl
  | s :: ss => by
    rw [mapStatements, s.map_id, mapStatements_id ss]

theorem Block.map_id : (b : Block α) → (b.map fun a => a) = b
  | .mk _ statements => by
    rw [Block.map, mapStatements_id statements]

end

/-! ### What was changed -/

namespace Expr

variable {f : α → β} {e : Expr α} {mark : β}

/-- A tree that becomes a literal by a change of marks is that literal. -/
theorem exists_of_map_eq_boolean {b : Bool} (h : e.map f = .boolean mark b) :
    ∃ t, e = .boolean t b := by
  cases e with
  | boolean t b' => exact ⟨t, congrArg _ (Expr.boolean.inj h).2⟩
  | conditional _ _ _ alternative => cases alternative <;> cases h
  | _ => cases h

theorem exists_of_map_eq_integer {n : Nat} (h : e.map f = .integer mark n) :
    ∃ t, e = .integer t n := by
  cases e with
  | integer t n' => exact ⟨t, congrArg _ (Expr.integer.inj h).2⟩
  | conditional _ _ _ alternative => cases alternative <;> cases h
  | _ => cases h

/-- A tree that becomes a unary expression is one, and its operand becomes the operand. -/
theorem exists_of_map_eq_unary {op : UnaryOp} {operand : Expr β}
    (h : e.map f = .unary mark op operand) :
    ∃ t operand', e = .unary t op operand' ∧ operand'.map f = operand := by
  cases e with
  | unary t op' operand' =>
    obtain ⟨-, rfl, hoperand⟩ := Expr.unary.inj h
    exact ⟨t, operand', rfl, hoperand⟩
  | conditional _ _ _ alternative => cases alternative <;> cases h
  | _ => cases h

/-- A tree that becomes an array literal is one, of elements that become the elements. -/
theorem exists_of_map_eq_array {elements : List (Expr β)} (h : e.map f = .array mark elements) :
    ∃ t elements', e = .array t elements' ∧ mapExprs f elements' = elements := by
  cases e with
  | array t elements' => exact ⟨t, elements', rfl, (Expr.array.inj h).2⟩
  | conditional _ _ _ alternative => cases alternative <;> cases h
  | _ => cases h

/-- A tree that becomes a hash literal is one, of pairs that become the pairs. -/
theorem exists_of_map_eq_hash {pairs : List (Expr β × Expr β)} (h : e.map f = .hash mark pairs) :
    ∃ t pairs', e = .hash t pairs' ∧ mapPairs f pairs' = pairs := by
  cases e with
  | hash t pairs' => exact ⟨t, pairs', rfl, (Expr.hash.inj h).2⟩
  | conditional _ _ _ alternative => cases alternative <;> cases h
  | _ => cases h

end Expr

/-! ### One mark on every node -/

/-- Programs that are the same without marks are the same with one mark on every node. -/
theorem Program.map_const_of_erase_eq {program : Program α} {other : Program β}
    (h : program.erase = other.erase) (mark : γ) :
    mapStatements (fun _ => mark) program = mapStatements (fun _ => mark) other := by
  have hmark := congrArg (mapStatements fun _ => mark) h
  rwa [Program.erase, Program.erase, mapStatements_map, mapStatements_map] at hmark

end MonkeyLang
