import Mathlib.Data.Int.Bitwise
import Mathlib.Data.Int.ModEq
import MonkeyLang.Operator.Apply

/-!
# Words and exact integers

Integers of the language are words, and operators on words are said here once more in terms of exact
integers: compute exactly, then wrap around.

## Main Definitions

* `Word.wrap` — an exact integer, wrapped around into the range of words
* `Word.quotient` — the quotient of the sizes, with the sign that the operands give it
* `Value.wrapped` — the value of an exact integer
* `BinaryOp.applyExact` — an operator on exact integers, whose result is wrapped around

## Main Statements

* `Word.eq_wrap_iff` — wrapping around finds the only word that is congruent modulo `2 ^ 64`
* `Word.quotient_eq_tdiv` — the quotient is cut off toward zero
* `UnaryOp.apply_negate` — **negation of words** is exact negation, wrapped around
* `BinaryOp.applyIntegers_eq_applyExact` — **operators on words** compute exactly and wrap around
* `Value.hashKey?_integer` — the slot of an integer in a hash

## Design Notes

The mask of ones is applied to the distance from the least word, which keeps its last 64 bits also
when the distance is negative.  Nothing is asked of the quotient by zero: the operator refuses it
before.
-/

namespace MonkeyLang

namespace Word

/-! ### Wrapping around -/

/-- The least word. -/
def least : Int := -2 ^ 63

/-- As many ones as a word has bits. -/
def mask : Int := 2 ^ 64 - 1

/-- **An integer wrapped around** into the range of words: the last bits of its distance from the
least word, counted from there. -/
def wrap (z : Int) : Int := Int.land (z - least) mask + least

/-- A mask of ones without the bits of `k` is the complement of `k`, cut off. -/
theorem ldiff_two_pow_sub_one (n k : Nat) : Nat.ldiff (2 ^ n - 1) k = 2 ^ n - (k % 2 ^ n + 1) := by
  refine Nat.eq_of_testBit_eq fun i => ?_
  rw [Nat.testBit_ldiff, Nat.testBit_two_pow_sub_one,
    Nat.testBit_two_pow_sub_succ (Nat.mod_lt k (Nat.two_pow_pos n)), Nat.testBit_mod_two_pow]
  cases decide (i < n) <;> rfl

/-- **A mask of ones** leaves the remainder by a power of two, of negative integers too. -/
theorem land_two_pow_sub_one (z : Int) (n : Nat) : Int.land z (2 ^ n - 1) = z % 2 ^ n := by
  have hmask : (2 ^ n - 1 : Int) = ((2 ^ n - 1 : Nat) : Int) := by
    rw [Nat.cast_sub Nat.one_le_two_pow, Nat.cast_pow, Nat.cast_ofNat, Nat.cast_one]
  rw [hmask]
  cases z with
  | ofNat k =>
    show ((k &&& (2 ^ n - 1) : Nat) : Int) = k % 2 ^ n
    rw [Nat.and_two_pow_sub_one_eq_mod]
    push_cast
    rfl
  | negSucc k =>
    show ((Nat.ldiff (2 ^ n - 1) k : Nat) : Int) = Int.negSucc k % 2 ^ n
    have hlt : k % 2 ^ n < 2 ^ n := Nat.mod_lt k (Nat.two_pow_pos n)
    rw [ldiff_two_pow_sub_one, Int.negSucc_emod k (Int.pow_pos (by decide)), Nat.cast_sub hlt]
    push_cast
    omega

/-- The mask keeps a remainder. -/
theorem wrap_eq_emod (z : Int) : wrap z = (z - least) % 2 ^ 64 + least := by
  rw [wrap, mask, land_two_pow_sub_one]

/-- **The range of words holds one integer of each residue class**, which wrapping around finds. -/
theorem eq_wrap_iff {z w : Int} :
    w = wrap z ↔ -2 ^ 63 ≤ w ∧ w < 2 ^ 63 ∧ w ≡ z [ZMOD 2 ^ 64] := by
  rw [wrap_eq_emod, least, Int.ModEq]
  omega

/-- What is in the range of words stays as it is. -/
theorem wrap_of_mem {z : Int} (hlow : -2 ^ 63 ≤ z) (hhigh : z < 2 ^ 63) : wrap z = z :=
  (eq_wrap_iff.2 ⟨hlow, hhigh, rfl⟩).symm

theorem wrap_modEq (z : Int) : wrap z ≡ z [ZMOD 2 ^ 64] := (eq_wrap_iff.1 rfl).2.2

/-- Integers that are congruent are wrapped around to the same one. -/
theorem wrap_congr {x y : Int} (h : x ≡ y [ZMOD 2 ^ 64]) : wrap x = wrap y := by
  obtain ⟨hlow, hhigh, hwrap⟩ := eq_wrap_iff.1 (rfl : wrap x = wrap x)
  exact eq_wrap_iff.2 ⟨hlow, hhigh, hwrap.trans h⟩

/-! ### Quotients -/

/-- **The quotient of the sizes**, negated when one operand is negative and the other one is not. -/
def quotient (a b : Int) : Int :=
  let q : Int := ((a.natAbs / b.natAbs : Nat) : Int)
  if decide (a < 0) ≠ decide (b < 0) then -q else q

/-- The quotient of the sizes with its sign is the quotient that is cut off toward zero. -/
theorem quotient_eq_tdiv (a b : Int) : quotient a b = a.tdiv b := by
  have hpositive (k : Nat) : ¬Int.ofNat k < 0 := Int.not_lt.2 (Int.natCast_nonneg k)
  cases a with
  | ofNat m =>
    cases b with
    | ofNat n => simp only [quotient, hpositive]; rfl
    | negSucc n => simp only [quotient, hpositive, Int.negSucc_lt_zero]; rfl
  | negSucc m =>
    cases b with
    | ofNat n => simp only [quotient, hpositive, Int.negSucc_lt_zero]; rfl
    | negSucc n => simp only [quotient, Int.negSucc_lt_zero]; rfl

/-! ### Words -/

/-- A word holds the last bits of an integer. -/
theorem toInt_ofInt (z : Int) : (Int64.ofInt z).toInt = wrap z := by
  refine eq_wrap_iff.2 ⟨Int64.le_toInt _, Int64.toInt_lt _, ?_⟩
  rw [Int64.toInt_ofInt]
  exact Int.bmod_emod

/-- Wrapping around first makes no other word. -/
theorem ofInt_wrap (z : Int) : Int64.ofInt (wrap z) = Int64.ofInt z := by
  rw [← toInt_ofInt, Int64.ofInt_toInt]

variable (a b : Int64)

/-- **Sums, differences, products, negations and quotients of words** are those of the integers,
wrapped around. -/
theorem add_eq_ofInt : a + b = Int64.ofInt (wrap (a.toInt + b.toInt)) := by
  rw [ofInt_wrap, Int64.ofInt_add, Int64.ofInt_toInt, Int64.ofInt_toInt]

theorem sub_eq_ofInt : a - b = Int64.ofInt (wrap (a.toInt - b.toInt)) := by
  rw [ofInt_wrap, Int64.ofInt_sub, Int64.ofInt_toInt, Int64.ofInt_toInt]

theorem mul_eq_ofInt : a * b = Int64.ofInt (wrap (a.toInt * b.toInt)) := by
  rw [ofInt_wrap, Int64.ofInt_mul, Int64.ofInt_toInt, Int64.ofInt_toInt]

theorem neg_eq_ofInt : -a = Int64.ofInt (wrap (-a.toInt)) := by
  rw [ofInt_wrap, Int64.ofInt_neg, Int64.ofInt_toInt]

theorem div_eq_ofInt : a / b = Int64.ofInt (wrap (quotient a.toInt b.toInt)) := by
  rw [quotient_eq_tdiv, ← toInt_ofInt, Int64.ofInt_toInt, ← Int64.toInt_inj, Int64.toInt_div,
    Int64.toInt_ofInt]

/-- As a word without sign, a word holds the bits that the mask leaves. -/
theorem toNat_toUInt64 : (a.toUInt64.toNat : Int) = Int.land a.toInt mask := by
  have hsigned : a.toInt = (a.toUInt64.toNat : Int).bmod (2 ^ 64) := BitVec.toInt_eq_toNat_bmod _
  have hlt : (a.toUInt64.toNat : Int) < 2 ^ 64 := by exact_mod_cast a.toUInt64.toNat_lt
  have hbits : (a.toUInt64.toNat : Int).bmod (2 ^ 64) % 2 ^ 64 = a.toUInt64.toNat % 2 ^ 64 :=
    Int.bmod_emod
  rw [mask, land_two_pow_sub_one, hsigned, hbits]
  exact (Int.emod_eq_of_lt (Int.natCast_nonneg _) hlt).symm

end Word

/-! ### Operators -/

/-- The value of an exact integer. -/
def Value.wrapped (z : Int) : Value := .integer (Int64.ofInt (Word.wrap z))

theorem Value.wrapped_eq (z : Int) : Value.wrapped z = .integer (Int64.ofInt z) := by
  rw [wrapped, Word.ofInt_wrap]

theorem Value.wrapped_toInt (a : Int64) : Value.wrapped a.toInt = .integer a := by
  rw [wrapped_eq, Int64.ofInt_toInt]

/-- Applies a binary operator to exact integers.  What is computed is wrapped around. -/
def BinaryOp.applyExact (op : BinaryOp) (a b : Int) : Except Fault Value :=
  match op with
  | add => .ok (.wrapped (a + b))
  | subtract => .ok (.wrapped (a - b))
  | multiply => .ok (.wrapped (a * b))
  | divide => if b = 0 then .error .divisionByZero else .ok (.wrapped (Word.quotient a b))
  | less => .ok (.boolean (decide (a < b)))
  | greater => .ok (.boolean (decide (a > b)))
  | equal => .ok (.boolean (decide (a = b)))
  | notEqual => .ok (.boolean (decide (a ≠ b)))

/-- **Negation of words** is exact negation, wrapped around. -/
theorem UnaryOp.apply_negate (a : Int64) :
    UnaryOp.negate.apply (.integer a) = .ok (.wrapped (-a.toInt)) :=
  congrArg (fun n => Except.ok (Value.integer n)) (Word.neg_eq_ofInt a)

/-- **Operators on words** are exact operators, wrapped around. -/
theorem BinaryOp.applyIntegers_eq_applyExact (op : BinaryOp) (a b : Int64) :
    op.applyIntegers a b = op.applyExact a.toInt b.toInt := by
  cases op with
  | add => rw [applyIntegers, Word.add_eq_ofInt, applyExact, Value.wrapped]
  | subtract => rw [applyIntegers, Word.sub_eq_ofInt, applyExact, Value.wrapped]
  | multiply => rw [applyIntegers, Word.mul_eq_ofInt, applyExact, Value.wrapped]
  | divide =>
    have hzero : b = 0 ↔ b.toInt = 0 := Int64.toInt_inj.symm
    rw [applyIntegers, Word.div_eq_ofInt, applyExact, Value.wrapped]
    simp only [hzero]
  | less => simp only [applyIntegers, applyExact, Int64.lt_iff_toInt_lt]
  | greater => simp only [applyIntegers, applyExact, Int64.lt_iff_toInt_lt, gt_iff_lt]
  | equal => simp only [applyIntegers, applyExact, ← Int64.toInt_inj, beq_eq_decide]
  | notEqual =>
    simp only [applyIntegers, applyExact, ← Int64.toInt_inj, bne, beq_eq_decide, decide_not]

/-- **The slot of an integer** in a hash is made of the bits that the mask leaves. -/
theorem Value.hashKey?_integer (a : Int64) : ∃ slot, (Value.integer a).hashKey? = some slot ∧
    slot.kind = .integer ∧ (slot.word.toNat : Int) = Int.land a.toInt Word.mask :=
  ⟨_, rfl, rfl, Word.toNat_toUInt64 a⟩

end MonkeyLang
