import MonkeyLang.Proofs.Depth
import MonkeyLang.Proofs.WordArithmetic

/-!
# Division

Quotients of integers are cut off toward zero, over the whole range of words.

## Main Definitions

* `TruncatesTo` — a quotient that is cut off toward zero, with its remainder
* `Expr.quotient`, `Expr.remainder` — the expressions `x / y` and `x - (x / y) * y`

## Main Statements

* `truncatesTo_quotient` — the exact quotient is cut off toward zero
* `wrap_quotient` — the quotient of two words is a word, with one exception
* `wrap_sub_quotient_mul` — their remainder is a word, without exception
* `evaluate_quotient`, `evaluate_remainder` — what the two expressions evaluate to
* `evaluate_division` — **division in the language**

## Design Notes

The least word divided by minus one is the only quotient that no word can hold, and it wraps around
to the least word again.  The product then wraps around as well, and back: the difference is zero,
which is the remainder in exact arithmetic.
-/

namespace MonkeyLang

open Eval

/-! ### Cutting off -/

/-- **Cut off toward zero**, in exact arithmetic: the remainder is smaller in size than the divisor,
and it is zero or has the sign of the dividend. -/
structure TruncatesTo (a b q r : Int) : Prop where
  eq : a = q * b + r
  remainder_lt : r.natAbs < b.natAbs
  sign_eq : r = 0 ∨ r.sign = a.sign

theorem truncatesTo_tdiv {a b : Int} (hb : b ≠ 0) : TruncatesTo a b (a.tdiv b) (a.tmod b) where
  eq := by
    rw [Int.mul_comm]
    exact (Int.mul_tdiv_add_tmod a b).symm
  remainder_lt := by
    rw [Int.natAbs_tmod]
    exact Nat.mod_lt _ (Int.natAbs_pos.2 hb)
  sign_eq := by
    have hsign := Int.sign_tmod a b
    split at hsign
    · exact .inl (Int.sign_eq_zero_iff_zero.1 hsign)
    · exact .inr hsign

/-- The quotient of the sizes, with its sign, is cut off toward zero. -/
theorem truncatesTo_quotient {a b : Int} (hb : b ≠ 0) :
    TruncatesTo a b (Word.quotient a b) (a - Word.quotient a b * b) := by
  rw [Word.quotient_eq_tdiv, Int.mul_comm, ← Int.tmod_def]
  exact truncatesTo_tdiv hb

/-! ### Words -/

variable {a b : Int64}

/-- **The quotient of two words is a word**, with one exception. -/
theorem wrap_quotient (h : ¬(a = Int64.minValue ∧ b = -1)) :
    Word.wrap (Word.quotient a.toInt b.toInt) = Word.quotient a.toInt b.toInt := by
  have hdiv : (a / b).toInt = Word.quotient a.toInt b.toInt := by
    rw [Word.quotient_eq_tdiv]
    by_cases ha : a = Int64.minValue
    · exact Int64.toInt_div_of_ne_right a b fun hb => h ⟨ha, hb⟩
    · exact Int64.toInt_div_of_ne_left a b ha
  rw [← hdiv]
  exact Word.wrap_of_mem (Int64.le_toInt _) (Int64.toInt_lt _)

/-- The remainder of two words is a word, without exception. -/
theorem wrap_sub_quotient_mul (a b : Int64) :
    Word.wrap (a.toInt - Word.quotient a.toInt b.toInt * b.toInt) =
      a.toInt - Word.quotient a.toInt b.toInt * b.toInt := by
  rw [Word.quotient_eq_tdiv, Int.mul_comm, ← Int.tmod_def, ← Int64.toInt_mod]
  exact Word.wrap_of_mem (Int64.le_toInt _) (Int64.toInt_lt _)

/-! ### Evaluation -/

namespace Expr

variable {α : Type}

/-- The expression `x / y`. -/
def quotient (t : α) (x y : Expr α) : Expr α := .binary t x .divide y

/-- The expression `x - (x / y) * y`. -/
def remainder (minus star slash : α) (x y : Expr α) : Expr α :=
  .binary minus x .subtract (.binary star (quotient slash x y) .multiply y)

end Expr

variable {depth : Nat} {scope : ScopeId} {m : Machine} {x y : Expr Token}

theorem evaluate_quotient (hx : evaluate depth scope x m = (.value (.integer a), m))
    (hy : evaluate depth scope y m = (.value (.integer b), m)) (slash : Token) :
    evaluate (depth + 1) scope (.quotient slash x y) m =
      (if b.toInt = 0 then
          .interrupt (.error { fault := .divisionByZero, location := slash.location })
        else .value (.wrapped (Word.quotient a.toInt b.toInt)), m) := by
  refine (evaluate_binary hx hy).trans ?_
  rw [BinaryOp.apply, BinaryOp.applyIntegers_eq_applyExact, BinaryOp.applyExact]
  split <;> rfl

/-- The product and the difference wrap around, and leave the word of what is exactly computed. -/
theorem evaluate_remainder (hx : evaluate depth scope x m = (.value (.integer a), m))
    (hy : evaluate depth scope y m = (.value (.integer b), m)) (hb : b.toInt ≠ 0)
    (minus star slash : Token) :
    evaluate (depth + 3) scope (.remainder minus star slash x y) m =
      (.value (.wrapped (a.toInt - Word.quotient a.toInt b.toInt * b.toInt)), m) := by
  have hdeeper {e : Expr Token} {n : Int64} {more : Nat}
      (he : evaluate depth scope e m = (.value (.integer n), m)) :
      evaluate (depth + more) scope e m = (.value (.wrapped n.toInt), m) := by
    refine (extends_evaluate (Nat.le_add_right depth more) scope e m ?_).trans ?_
    · rw [he]
      exact nofun
    · rw [he, Value.wrapped_toInt]
  have hquotient := evaluate_quotient hx hy slash
  rw [if_neg hb] at hquotient
  have hproduct : evaluate (depth + 2) scope (.binary star (.quotient slash x y) .multiply y) m =
      (.value (.wrapped (Word.quotient a.toInt b.toInt * b.toInt)), m) := by
    refine (evaluate_binary hquotient (hdeeper hy)).trans ?_
    rw [BinaryOp.apply_wrapped rfl]
    rfl
  refine (evaluate_binary (hdeeper hx) hproduct).trans ?_
  rw [BinaryOp.apply_wrapped rfl]
  rfl

/-- **Division in the language.**  Take two expressions that evaluate to integers `a` and `b` and
change nothing.  Their quotient is the error of a division by zero exactly when `b` is zero.  Else
it is `a / b` in exact arithmetic, cut off toward zero, and `a - (a / b) * b` is the remainder.
The one exception is the least integer divided by minus one: the quotient is the least integer
again, and the remainder is zero. -/
theorem evaluate_division (hx : evaluate depth scope x m = (.value (.integer a), m))
    (hy : evaluate depth scope y m = (.value (.integer b), m)) (minus star slash : Token) :
    (b = 0 ↔ ∃ e : RuntimeError,
      evaluate (depth + 1) scope (.quotient slash x y) m = (.interrupt (.error e), m) ∧
        e.message = "division by zero") ∧
    (b ≠ 0 → ∃ q r : Int64,
      evaluate (depth + 1) scope (.quotient slash x y) m = (.value (.integer q), m) ∧
      evaluate (depth + 3) scope (.remainder minus star slash x y) m = (.value (.integer r), m) ∧
      if a = Int64.minValue ∧ b = -1 then q = Int64.minValue ∧ r = 0
      else TruncatesTo a.toInt b.toInt q.toInt r.toInt) := by
  have hquotient := evaluate_quotient hx hy slash
  have hzero : b = 0 ↔ b.toInt = 0 := Int64.toInt_inj.symm
  constructor
  · rw [hquotient, hzero]
    constructor
    · intro hb
      exact ⟨_, by rw [if_pos hb], rfl⟩
    · rintro ⟨e, he, -⟩
      by_contra hb
      rw [if_neg hb] at he
      cases he
  · intro hb
    have hne : b.toInt ≠ 0 := fun h => hb (hzero.2 h)
    rw [if_neg hne] at hquotient
    refine ⟨_, _, hquotient, evaluate_remainder hx hy hne minus star slash, ?_⟩
    split
    · next hexception =>
      obtain ⟨rfl, rfl⟩ := hexception
      decide
    · next hexception =>
      rw [Word.ofInt_wrap, Word.ofInt_wrap, Word.toInt_ofInt, Word.toInt_ofInt,
        wrap_quotient hexception, wrap_sub_quotient_mul]
      exact truncatesTo_quotient hne

/-- The least integer divided by minus one, and by ten. -/
theorem evaluate_division_least :
    let t : Token := ⟨.eof, none⟩
    let x : Expr Token := .identifier t "x"
    let negative : Expr Token := .unary t .negate (.integer t 1)
    let m : Machine := { scopes := Scopes.empty.create none [("x", .integer Int64.minValue)] }
    (∃ q r : Int64,
      evaluate 3 0 (.quotient t x negative) m = (.value (.integer q), m) ∧
      evaluate 5 0 (.remainder t t t x negative) m = (.value (.integer r), m) ∧
      q = Int64.minValue ∧ r = 0) ∧
    (∃ q r : Int64,
      evaluate 3 0 (.quotient t x (.integer t 10)) m = (.value (.integer q), m) ∧
      evaluate 5 0 (.remainder t t t x (.integer t 10)) m = (.value (.integer r), m) ∧
      TruncatesTo (-9223372036854775808) 10 q.toInt r.toInt) := by
  intro t x negative m
  have hx : evaluate 2 0 x m = (.value (.integer Int64.minValue), m) := rfl
  have hnegative : evaluate 2 0 negative m = (.value (.integer (-1)), m) := rfl
  have hten : evaluate 2 0 (.integer t 10) m = (.value (.integer 10), m) := rfl
  obtain ⟨q, r, hq, hr, hexception⟩ := (evaluate_division hx hnegative t t t).2 (by decide)
  obtain ⟨q', r', hq', hr', htruncates⟩ := (evaluate_division hx hten t t t).2 (by decide)
  exact ⟨⟨q, r, hq, hr, by simpa using hexception⟩, q', r', hq', hr', by simpa using htruncates⟩

end MonkeyLang
