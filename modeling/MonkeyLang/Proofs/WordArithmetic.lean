import Mathlib.Tactic.Ring
import MonkeyLang.Proofs.EvalRules
import MonkeyLang.Proofs.Words

/-!
# Wrapping arithmetic

Sums, differences, products and negations of integers wrap around at every step.  The result is that
of exact arithmetic, taken modulo `2 ^ 64` once at the end.

## Main Definitions

* `Expr.exact` — the exact value of an arithmetic expression
* `Expr.levels` — how deeply its evaluations nest
* `Expr.Rearranged` — expressions that are associated or distributed in another way
* `Machine.integerAt` — the integer that a name is bound to
* `Expr.IsWorth` — an expression evaluates to the word of an integer, within its levels

## Main Statements

* `BinaryOp.wrap_exact` — wrapping around on the way makes no difference
* `evaluate_negation`, `evaluate_operation` — the operators on what their operands are worth
* `evaluate_of_exact` — an arithmetic expression evaluates to the word of its exact value
* `Expr.Rearranged.exact_eq` — an expression that is rearranged has the same exact value
* `evaluate_arithmetic` — **wrapping arithmetic is arithmetic modulo `2 ^ 64`**

## Design Notes

Each operator computes exactly and wraps around, and the exact results of congruent operands are
congruent.  So the word of the exact value is what the evaluation arrives at, wherever it wraps
around on the way.
-/

namespace MonkeyLang

variable {α : Type}

/-! ### Exact values -/

/-- What an operator does to exact integers, for the operators that only wrap around. -/
def BinaryOp.exact? : BinaryOp → Option (Int → Int → Int)
  | add => some (· + ·)
  | subtract => some (· - ·)
  | multiply => some (· * ·)
  | _ => none

namespace Expr

/-- **The exact value** of an expression that is made of integers, of names that stand for integers,
and of negations, sums, differences and products.  Other expressions have none. -/
def exact (value : String → Option Int) : Expr α → Option Int
  | .identifier _ name => value name
  | .integer _ n => some n
  | .unary _ .negate e => (e.exact value).map (- ·)
  | .binary _ left op right => do
    let f ← op.exact?
    let x ← left.exact value
    let y ← right.exact value
    return f x y
  | _ => none
termination_by structural e => e

/-- How many evaluations nest in that of an arithmetic expression. -/
def levels : Expr α → Nat
  | .unary _ _ e => e.levels + 1
  | .binary _ left _ right => max left.levels right.levels + 1
  | _ => 1
termination_by structural e => e

end Expr

/-- The integer that a name is bound to, seen from a scope. -/
def Machine.integerAt (m : Machine) (scope : ScopeId) (name : String) : Option Int :=
  match m.scopes.lookup scope name with
  | some (.integer n) => some n.toInt
  | _ => none

theorem Machine.lookup_of_integerAt {m : Machine} {scope : ScopeId} {name : String} {z : Int}
    (h : m.integerAt scope name = some z) :
    m.scopes.lookup scope name = some (.wrapped z) := by
  unfold integerAt at h
  split at h
  · next n hn =>
    cases h
    rw [hn, Value.wrapped_toInt]
  · cases h

/-! ### Wrapping around on the way -/

namespace BinaryOp

variable {op : BinaryOp} {f : Int → Int → Int}

/-- Operands that are wrapped around lead to the same word. -/
theorem wrap_exact (h : op.exact? = some f) (x y : Int) :
    Word.wrap (f (Word.wrap x) (Word.wrap y)) = Word.wrap (f x y) := by
  have hx := Word.wrap_modEq x
  have hy := Word.wrap_modEq y
  refine Word.wrap_congr ?_
  cases op with
  | add =>
    cases h
    exact hx.add hy
  | subtract =>
    cases h
    exact hx.sub hy
  | multiply =>
    cases h
    exact hx.mul hy
  | _ => cases h

theorem applyExact_of_exact (h : op.exact? = some f) (x y : Int) :
    op.applyExact x y = .ok (.wrapped (f x y)) := by
  cases op with
  | add => cases h; rfl
  | subtract => cases h; rfl
  | multiply => cases h; rfl
  | _ => cases h

/-- An operator on the words of two integers yields the word of its exact result. -/
theorem apply_wrapped (h : op.exact? = some f) (x y : Int) :
    op.apply (.wrapped x) (.wrapped y) = .ok (.wrapped (f x y)) :=
  calc
    op.apply (.wrapped x) (.wrapped y)
      = op.applyExact (Int64.ofInt (Word.wrap x)).toInt (Int64.ofInt (Word.wrap y)).toInt :=
        applyIntegers_eq_applyExact op _ _
    _ = op.applyExact (Word.wrap x) (Word.wrap y) := by
        rw [Word.ofInt_wrap, Word.ofInt_wrap, Word.toInt_ofInt, Word.toInt_ofInt]
    _ = .ok (.wrapped (f (Word.wrap x) (Word.wrap y))) := applyExact_of_exact h _ _
    _ = .ok (.wrapped (f x y)) := by rw [Value.wrapped, wrap_exact h, ← Value.wrapped]

end BinaryOp

/-- The negation of the word of an integer is the word of its exact negation. -/
theorem UnaryOp.apply_negate_wrapped (x : Int) :
    UnaryOp.negate.apply (.wrapped x) = .ok (.wrapped (-x)) := by
  have hwrap : Word.wrap (-Word.wrap x) = Word.wrap (-x) :=
    Word.wrap_congr (Word.wrap_modEq x).neg
  rw [Value.wrapped_eq, apply_negate, Word.toInt_ofInt, Value.wrapped, hwrap, ← Value.wrapped]

/-! ### Evaluation -/

/-- The expression is worth the word of this integer, under every limit that allows for its levels,
and leaves the machine as it is. -/
def Expr.IsWorth (m : Machine) (scope : ScopeId) (e : Expr Token) (z : Int) : Prop :=
  ∀ depth, evaluate depth scope e m =
    (if e.levels ≤ depth then .value (.wrapped z) else .tooDeep, m)

section Operators

variable {m : Machine} {scope : ScopeId} {t : Token} {op : BinaryOp}
  {left right operand : Expr Token} {x y : Int} {f : Int → Int → Int}

/-- A negation is worth the negation, one level further out. -/
theorem evaluate_negation (hoperand : operand.IsWorth m scope x) :
    (Expr.unary t .negate operand).IsWorth m scope (-x) := by
  intro depth
  cases depth with
  | zero => rfl
  | succ depth =>
    simp only [Expr.levels, Nat.add_le_add_iff_right]
    have hoperand := hoperand depth
    by_cases hdepth : operand.levels ≤ depth
    · rw [if_pos hdepth] at hoperand ⊢
      refine (Eval.bind_value hoperand _).trans ?_
      rw [UnaryOp.apply_negate_wrapped]
      rfl
    · rw [if_neg hdepth] at hoperand ⊢
      exact Eval.bind_tooDeep hoperand _

/-- A sum, difference or product is worth that of its operands, both of which have to fit. -/
theorem evaluate_operation (hop : op.exact? = some f) (hleft : left.IsWorth m scope x)
    (hright : right.IsWorth m scope y) :
    (Expr.binary t left op right).IsWorth m scope (f x y) := by
  intro depth
  cases depth with
  | zero => rfl
  | succ depth =>
    simp only [Expr.levels, Nat.add_le_add_iff_right, Nat.max_le]
    have hleft := hleft depth
    have hright := hright depth
    by_cases hleftDepth : left.levels ≤ depth
    · rw [if_pos hleftDepth] at hleft
      refine (Eval.bind_value hleft _).trans ?_
      by_cases hrightDepth : right.levels ≤ depth
      · rw [if_pos hrightDepth] at hright
        rw [if_pos ⟨hleftDepth, hrightDepth⟩]
        refine (Eval.bind_value hright _).trans ?_
        rw [BinaryOp.apply_wrapped hop]
        rfl
      · rw [if_neg hrightDepth] at hright
        rw [if_neg fun hboth => hrightDepth hboth.2]
        exact Eval.bind_tooDeep hright _
    · rw [if_neg hleftDepth] at hleft
      rw [if_neg fun hboth => hleftDepth hboth.1]
      exact Eval.bind_tooDeep hleft _

end Operators

/-- **An arithmetic expression evaluates to the word of its exact value**, if the depth limit allows
for its levels, and leaves the machine as it is. -/
theorem evaluate_of_exact {m : Machine} {scope : ScopeId} {e : Expr Token} {z : Int}
    (h : e.exact (m.integerAt scope) = some z) : e.IsWorth m scope z := by
  induction e using Expr.exact.induct generalizing z with
  | case1 t name =>
    rw [Expr.exact] at h
    intro depth
    cases depth with
    | zero => rfl
    | succ depth =>
      rw [if_pos (show (Expr.identifier t name).levels ≤ depth + 1 from Nat.le_add_left 1 depth)]
      exact evaluate_identifier (Machine.lookup_of_integerAt h) rfl
  | case2 t n =>
    rw [Expr.exact, Option.some.injEq] at h
    subst h
    intro depth
    cases depth with
    | zero => rfl
    | succ depth =>
      rw [if_pos (show (Expr.integer t n).levels ≤ depth + 1 from Nat.le_add_left 1 depth),
        Value.wrapped_eq]
      rfl
  | case3 t operand ih =>
    rw [Expr.exact, Option.map_eq_some_iff] at h
    obtain ⟨x, hx, rfl⟩ := h
    exact evaluate_negation (ih hx)
  | case4 t left op right ihleft ihright =>
    simp only [Expr.exact, Option.bind_eq_bind, Option.bind_eq_some_iff] at h
    obtain ⟨f, hf, x, hx, y, hy, hxy⟩ := h
    cases hxy
    exact evaluate_operation hf (ihleft hx) (ihright hy)
  | case5 e hname hinteger hnegate hbinary =>
    rw [Expr.exact] at h
    · cases h
    all_goals assumption

/-! ### Rearranging -/

namespace Expr

/-- An exact value does not depend on marks. -/
theorem exact_erase (value : String → Option Int) (e : Expr α) :
    e.erase.exact value = e.exact value := by
  induction e using Expr.exact.induct with
  | case1 t name => rfl
  | case2 t n => rfl
  | case3 t operand ih => exact congrArg (Option.map (- ·)) ih
  | case4 t left op right ihleft ihright =>
    unfold erase at ihleft ihright ⊢
    rw [map, exact, exact, ihleft, ihright]
  | case5 e hname hinteger hnegate hbinary =>
    cases e with
    | identifier t name => exact absurd rfl (hname t name)
    | integer t n => exact absurd rfl (hinteger t n)
    | unary t op operand =>
      cases op with
      | not => rfl
      | negate => exact absurd rfl (hnegate t operand)
    | binary t left op right => exact absurd rfl (hbinary t left op right)
    | conditional t condition consequence alternative => cases alternative <;> rfl
    | _ => rfl

/-- **Rearranging**: the same integers and names, with the operators associated or distributed in
another way.  The marks do not matter. -/
inductive Rearranged : Expr α → Expr α → Prop
  | marks {e e' : Expr α} (same : e.erase = e'.erase) : Rearranged e e'
  | symm {e e' : Expr α} (h : Rearranged e e') : Rearranged e' e
  | trans {e e' e'' : Expr α} (h : Rearranged e e') (h' : Rearranged e' e'') : Rearranged e e''
  | negate {t : α} {a a' : Expr α} (h : Rearranged a a') :
    Rearranged (.unary t .negate a) (.unary t .negate a')
  | binary {t : α} {a a' b b' : Expr α} {op : BinaryOp} (h : Rearranged a a')
      (h' : Rearranged b b') : Rearranged (.binary t a op b) (.binary t a' op b')
  /-- `(a + b) + c` and `a + (b + c)`. -/
  | add_add (t u : α) (a b c : Expr α) :
    Rearranged (.binary t (.binary u a .add b) .add c) (.binary u a .add (.binary t b .add c))
  /-- `(a + b) - c` and `a + (b - c)`. -/
  | add_subtract (t u : α) (a b c : Expr α) :
    Rearranged (.binary t (.binary u a .add b) .subtract c)
      (.binary u a .add (.binary t b .subtract c))
  /-- `(a - b) + c` and `a - (b - c)`. -/
  | subtract_add (t u : α) (a b c : Expr α) :
    Rearranged (.binary t (.binary u a .subtract b) .add c)
      (.binary u a .subtract (.binary t b .subtract c))
  /-- `(a - b) - c` and `a - (b + c)`. -/
  | subtract_subtract (t u : α) (a b c : Expr α) :
    Rearranged (.binary t (.binary u a .subtract b) .subtract c)
      (.binary u a .subtract (.binary t b .add c))
  /-- `(a * b) * c` and `a * (b * c)`. -/
  | multiply_multiply (t u : α) (a b c : Expr α) :
    Rearranged (.binary t (.binary u a .multiply b) .multiply c)
      (.binary u a .multiply (.binary t b .multiply c))
  /-- `a * (b + c)` and `a * b + a * c`, and so with a difference. -/
  | distribute_left (t u : α) (a b c : Expr α) {op : BinaryOp} (hop : op = .add ∨ op = .subtract) :
    Rearranged (.binary t a .multiply (.binary u b op c))
      (.binary u (.binary t a .multiply b) op (.binary t a .multiply c))
  /-- `(a + b) * c` and `a * c + b * c`, and so with a difference. -/
  | distribute_right (t u : α) (a b c : Expr α) {op : BinaryOp} (hop : op = .add ∨ op = .subtract) :
    Rearranged (.binary t (.binary u a op b) .multiply c)
      (.binary u (.binary t a .multiply c) op (.binary t b .multiply c))
  /-- `-(a + b)` and `-a + -b`, and so with a difference. -/
  | negate_sum (t u : α) (a b : Expr α) {op : BinaryOp} (hop : op = .add ∨ op = .subtract) :
    Rearranged (.unary t .negate (.binary u a op b))
      (.binary u (.unary t .negate a) op (.unary t .negate b))
  /-- `-(a * b)` and `-a * b`. -/
  | negate_product (t u : α) (a b : Expr α) :
    Rearranged (.unary t .negate (.binary u a .multiply b))
      (.binary u (.unary t .negate a) .multiply b)

/-- **Rearranging leaves the exact value what it is.** -/
theorem Rearranged.exact_eq {e e' : Expr α} (h : e.Rearranged e') (value : String → Option Int) :
    e.exact value = e'.exact value := by
  induction h with
  | marks same => rw [← exact_erase, same, exact_erase]
  | symm _ ih => exact ih.symm
  | trans _ _ ih ih' => exact ih.trans ih'
  | negate _ ih => rw [exact, exact, ih]
  | binary _ _ ih ih' => rw [exact, exact, ih, ih']
  | add_add t u a b c =>
    simp only [exact, BinaryOp.exact?]
    cases a.exact value <;> cases b.exact value <;> cases c.exact value <;> try rfl
    exact congrArg some (Int.add_assoc _ _ _)
  | add_subtract t u a b c =>
    simp only [exact, BinaryOp.exact?]
    cases a.exact value <;> cases b.exact value <;> cases c.exact value <;> try rfl
    exact congrArg some (Int.add_sub_assoc _ _ _)
  | subtract_add t u a b c =>
    simp only [exact, BinaryOp.exact?]
    cases a.exact value <;> cases b.exact value <;> cases c.exact value <;> try rfl
    exact congrArg some (sub_add _ _ _)
  | subtract_subtract t u a b c =>
    simp only [exact, BinaryOp.exact?]
    cases a.exact value <;> cases b.exact value <;> cases c.exact value <;> try rfl
    exact congrArg some (Int.sub_sub _ _ _)
  | multiply_multiply t u a b c =>
    simp only [exact, BinaryOp.exact?]
    cases a.exact value <;> cases b.exact value <;> cases c.exact value <;> try rfl
    exact congrArg some (Int.mul_assoc _ _ _)
  | distribute_left t u a b c hop =>
    rcases hop with rfl | rfl
    · simp only [exact, BinaryOp.exact?]
      cases a.exact value <;> cases b.exact value <;> cases c.exact value <;> try rfl
      exact congrArg some (Int.mul_add _ _ _)
    · simp only [exact, BinaryOp.exact?]
      cases a.exact value <;> cases b.exact value <;> cases c.exact value <;> try rfl
      exact congrArg some (Int.mul_sub _ _ _)
  | distribute_right t u a b c hop =>
    rcases hop with rfl | rfl
    · simp only [exact, BinaryOp.exact?]
      cases a.exact value <;> cases b.exact value <;> cases c.exact value <;> try rfl
      exact congrArg some (Int.add_mul _ _ _)
    · simp only [exact, BinaryOp.exact?]
      cases a.exact value <;> cases b.exact value <;> cases c.exact value <;> try rfl
      exact congrArg some (Int.sub_mul _ _ _)
  | negate_sum t u a b hop =>
    rcases hop with rfl | rfl
    · simp only [exact, BinaryOp.exact?]
      cases a.exact value <;> cases b.exact value <;> try rfl
      exact congrArg some Int.neg_add
    · simp only [exact, BinaryOp.exact?]
      cases a.exact value <;> cases b.exact value <;> try rfl
      exact congrArg some (neg_sub' _ _)
  | negate_product t u a b =>
    simp only [exact, BinaryOp.exact?]
    cases a.exact value <;> cases b.exact value <;> try rfl
    exact congrArg some (Int.neg_mul _ _).symm

end Expr

/-! ### Wrapping around once -/

/-- **Wrapping arithmetic is arithmetic modulo `2 ^ 64`.**  Take an expression of integers, of names
that stand for integers, and of negations, sums, differences and products.  Under every depth limit
that allows for its levels it evaluates to one integer, and changes nothing: the only one that is
congruent modulo `2 ^ 64` to the exact value of the expression, and that a word can hold.  However
the expression is rearranged, it evaluates to the same integer. -/
theorem evaluate_arithmetic {m : Machine} {scope : ScopeId} {e : Expr Token} {z : Int}
    (h : e.exact (m.integerAt scope) = some z) :
    ∃ n : Int64,
      (∀ w : Int, w = n.toInt ↔ -2 ^ 63 ≤ w ∧ w < 2 ^ 63 ∧ w ≡ z [ZMOD 2 ^ 64]) ∧
      (∀ depth, evaluate depth scope e m =
        (if e.levels ≤ depth then .value (.integer n) else .tooDeep, m)) ∧
      ∀ e', e.Rearranged e' → ∀ depth, evaluate depth scope e' m =
        (if e'.levels ≤ depth then .value (.integer n) else .tooDeep, m) := by
  refine ⟨Int64.ofInt (Word.wrap z), fun w => ?_, evaluate_of_exact h, fun e' hrearranged => ?_⟩
  · rw [Word.ofInt_wrap, Word.toInt_ofInt]
    exact Word.eq_wrap_iff
  · exact evaluate_of_exact ((hrearranged.exact_eq _).symm.trans h)

/-- With the least word as `x`, `-(x + x)` wraps around in the sum, and `-x + -x` in each of its
operators. -/
theorem evaluate_arithmetic_least :
    let t : Token := ⟨.eof, none⟩
    let x : Expr Token := .identifier t "x"
    let e : Expr Token := .unary t .negate (.binary t x .add x)
    let e' : Expr Token := .binary t (.unary t .negate x) .add (.unary t .negate x)
    let m : Machine := { scopes := Scopes.empty.create none [("x", .integer Int64.minValue)] }
    e.exact (m.integerAt 0) = some (2 ^ 64) ∧
      evaluate 3 0 e m = (.value (.integer 0), m) ∧
      evaluate 3 0 e' m = (.value (.integer 0), m) := by
  intro t x e e' m
  have h : e.exact (m.integerAt 0) = some (2 ^ 64) := by decide +kernel
  obtain ⟨n, hn, he, hrearranged⟩ := evaluate_arithmetic h
  have hzero : n = 0 := by
    rw [← Int64.toInt_inj, ← (hn 0).2 (by decide)]
    rfl
  subst hzero
  exact ⟨h, he 3, hrearranged e' (.negate_sum t t x x (.inl rfl)) 3⟩

end MonkeyLang
