import Mathlib.Logic.Function.Basic
import MonkeyLang.Operator.Apply

/-!
# Digests of similar strings

A digest takes in one byte after the other, and no step forgets anything: from the digest behind a
step and the byte, one gets back the digest in front of it.  So two strings that differ in one byte
have different digests, whatever stands in front of that byte and behind it.

## Main Definitions

* `Digest.expel` — takes a byte out of a digest again
* `DifferInOnePlace` — lists of one length that differ in exactly one place

## Main Statements

* `Digest.expel_absorb` — what a step of the digest does can be undone
* `Digest.foldl_absorb_injective` — different digests stay different, whatever bytes follow
* `similar_strings_have_different_digests` — so strings that differ in one byte are different keys

## Design Notes

The factor of a step is odd and has an inverse modulo the 64th power of two, which is written down
here.  Nothing else is needed about the factor, and nothing about the digest of no bytes.
-/

namespace MonkeyLang

/-! ### One step -/

namespace Digest

/-- The inverse of the factor of a step, modulo the 64th power of two. -/
def primeInverse : UInt64 := 0xCE965057AFF6957B

theorem prime_mul_primeInverse : prime * primeInverse = 1 := by decide

/-- Takes a byte out of a digest again. -/
def expel (digest : UInt64) (byte : UInt8) : UInt64 :=
  (digest * primeInverse) ^^^ byte.toUInt64

/-- **A step can be undone.** -/
theorem expel_absorb (digest : UInt64) (byte : UInt8) :
    expel (absorb digest byte) byte = digest := by
  rw [expel, absorb, UInt64.mul_assoc, prime_mul_primeInverse, UInt64.mul_one, UInt64.xor_assoc,
    UInt64.xor_self, UInt64.xor_zero]

/-- Every digest is the outcome of a step with a given byte. -/
theorem absorb_expel (digest : UInt64) (byte : UInt8) :
    absorb (expel digest byte) byte = digest := by
  rw [absorb, expel, UInt64.xor_assoc, UInt64.xor_self, UInt64.xor_zero, UInt64.mul_assoc,
    UInt64.mul_comm primeInverse, prime_mul_primeInverse, UInt64.mul_one]

/-- With one byte, a step takes different digests to different digests, and misses none. -/
theorem absorb_left_bijective (byte : UInt8) :
    Function.Bijective fun digest => absorb digest byte :=
  ⟨Function.LeftInverse.injective (g := fun digest => expel digest byte) fun digest =>
      expel_absorb digest byte,
    fun digest => ⟨expel digest byte, absorb_expel digest byte⟩⟩

/-- From one digest, different bytes lead to different digests. -/
theorem absorb_right_injective (digest : UInt64) : Function.Injective (absorb digest) := by
  intro b c h
  have hexpel := congrArg (· * primeInverse) h
  simp only [absorb, UInt64.mul_assoc, prime_mul_primeInverse, UInt64.mul_one] at hexpel
  exact UInt8.toUInt64_inj.1 ((UInt64.xor_right_inj _).1 hexpel)

/-! ### Many steps -/

/-- **Different digests stay different**, whatever bytes follow. -/
theorem foldl_absorb_injective (bytes : List UInt8) :
    Function.Injective fun digest => bytes.foldl absorb digest := by
  induction bytes with
  | nil => exact Function.injective_id
  | cons byte bytes ih => exact ih.comp (absorb_left_bijective byte).injective

/-- What follows does not matter for whether two digests are equal. -/
theorem ofBytes_append_right_inj (x y s : List UInt8) :
    ofBytes (x ++ s) = ofBytes (y ++ s) ↔ ofBytes x = ofBytes y := by
  rw [ofBytes_append, ofBytes_append]
  exact (foldl_absorb_injective s).eq_iff

/-- Bytes that differ in one place have different digests. -/
theorem ofBytes_ne {b c : UInt8} (h : b ≠ c) (p s : List UInt8) :
    ofBytes (p ++ b :: s) ≠ ofBytes (p ++ c :: s) := by
  rw [List.append_cons p b, List.append_cons p c, ne_eq, ofBytes_append_right_inj, ofBytes_append,
    ofBytes_append]
  exact fun heq => h (absorb_right_injective _ heq)

end Digest

/-! ### Lists that differ in one place -/

variable {α : Type}

/-- The lists have the same length and differ in exactly one place. -/
def DifferInOnePlace (as bs : List α) : Prop :=
  as.length = bs.length ∧ ∃! i : Nat, as[i]? ≠ bs[i]?

/-- What stands in front of the one place, and what stands behind it, is the same. -/
theorem DifferInOnePlace.exists_split {as bs : List α} (h : DifferInOnePlace as bs) :
    ∃ p a b s, a ≠ b ∧ as = p ++ a :: s ∧ bs = p ++ b :: s := by
  obtain ⟨hlength, i, hi, hunique⟩ := h
  have hsame (j : Nat) (hj : j ≠ i) : as[j]? = bs[j]? := by
    by_contra hne
    exact hj (hunique j hne)
  have has : i < as.length := by
    by_contra hle
    exact hi (by rw [List.getElem?_eq_none (by omega), List.getElem?_eq_none (by omega)])
  have hbs : i < bs.length := hlength ▸ has
  have htake : as.take i = bs.take i := by
    refine List.ext_getElem? fun j => ?_
    rw [List.getElem?_take, List.getElem?_take]
    split
    · exact hsame j (by omega)
    · rfl
  have hdrop : as.drop (i + 1) = bs.drop (i + 1) := by
    refine List.ext_getElem? fun j => ?_
    rw [List.getElem?_drop, List.getElem?_drop]
    exact hsame _ (by omega)
  refine ⟨as.take i, as[i], bs[i], as.drop (i + 1), fun heq => hi ?_, ?_, ?_⟩
  · rw [List.getElem?_eq_getElem has, List.getElem?_eq_getElem hbs, heq]
  · rw [List.getElem_cons_drop, List.take_append_drop]
  · rw [htake, hdrop, List.getElem_cons_drop, List.take_append_drop]

/-! ### Strings as keys -/

/-- **Strings that differ in one byte have different digests**, and the same is true of bytes:
whatever stands in front of two different bytes and behind them, the digests are different.  Behind
two lists of bytes the same bytes make no difference to whether the digests are equal.  So a hash
stores two strings that differ in one byte of their UTF-8 encodings in different slots: neither is
in the way of the other. -/
theorem similar_strings_have_different_digests :
    (∀ (p s : List UInt8) (b c : UInt8), b ≠ c →
      Digest.ofBytes (p ++ b :: s) ≠ Digest.ofBytes (p ++ c :: s)) ∧
    (∀ x y s : List UInt8,
      Digest.ofBytes (x ++ s) = Digest.ofBytes (y ++ s) ↔ Digest.ofBytes x = Digest.ofBytes y) ∧
    ∀ a b : String, DifferInOnePlace a.toUTF8.data.toList b.toUTF8.data.toList →
      ∃ slot slot' : HashKey, (Value.string a).hashKey? = some slot ∧
        (Value.string b).hashKey? = some slot' ∧ slot ≠ slot' ∧
          ∀ (id : ObjectId) (stored : Entries) (v w : Value),
            let store := Value.hash id
              ((stored.insert slot (.string a, v)).insert slot' (.string b, w))
            store.at (.string a) = .ok v ∧ store.at (.string b) = .ok w := by
  refine ⟨fun p s b c h => Digest.ofBytes_ne h p s, Digest.ofBytes_append_right_inj,
    fun a b h => ?_⟩
  obtain ⟨p, x, y, s, hne, ha, hb⟩ := h.exists_split
  have hdigest : Digest.ofString a ≠ Digest.ofString b := by
    rw [Digest.ofString, Digest.ofString, ha, hb]
    exact Digest.ofBytes_ne hne p s
  have hslot : (⟨.string, Digest.ofString a⟩ : HashKey) ≠ ⟨.string, Digest.ofString b⟩ :=
    fun heq => hdigest (HashKey.mk.inj heq).2
  refine ⟨_, _, rfl, rfl, hslot, fun id stored v w => ⟨?_, ?_⟩⟩
  · simp only [Value.at, Value.hashKey?]
    rw [OrderedMap.find?_insert_of_ne hslot, OrderedMap.find?_insert_self]
    rfl
  · simp only [Value.at, Value.hashKey?]
    rw [OrderedMap.find?_insert_self]
    rfl

/-- Two words of five letters, one of which differs. -/
theorem similar_strings_have_different_digests_stone :
    DifferInOnePlace "stone".toUTF8.data.toList "store".toUTF8.data.toList ∧
      (Value.string "stone").hashKey? ≠ (Value.string "store").hashKey? := by
  have hstone : DifferInOnePlace "stone".toUTF8.data.toList "store".toUTF8.data.toList := by
    have hrest : ∀ i < 5, i ≠ 3 →
        "stone".toUTF8.data.toList[i]? = "store".toUTF8.data.toList[i]? := by decide
    refine ⟨by decide, 3, by decide, fun i hi => ?_⟩
    by_contra hne
    rcases Nat.lt_or_ge i 5 with hlt | hge
    · exact hi (hrest i hlt hne)
    · exact hi (by rw [List.getElem?_eq_none hge, List.getElem?_eq_none hge])
  obtain ⟨-, -, hstrings⟩ := similar_strings_have_different_digests
  obtain ⟨slot, slot', ha, hb, hne, -⟩ := hstrings "stone" "store" hstone
  refine ⟨hstone, fun heq => hne ?_⟩
  rw [ha, hb] at heq
  exact Option.some.inj heq

end MonkeyLang
