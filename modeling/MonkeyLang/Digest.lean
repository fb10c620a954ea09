/-!
# The digest of strings

A string used as a hash key is represented by a 64-bit digest of its UTF-8 bytes, the FNV-1a digest.

## Main Definitions

* `Digest.absorb` — one step: mix a byte into the digest
* `Digest.ofBytes` — the digest of a list of bytes
* `Digest.ofString` — the digest of the bytes of a string
-/

namespace MonkeyLang.Digest

/-- The digest of no bytes. -/
def offsetBasis : UInt64 := 0xCBF29CE484222325

/-- The factor of each step. -/
def prime : UInt64 := 0x100000001B3

/-- Mixes one byte into a digest: exclusive or, then multiplication modulo `2 ^ 64`. -/
def absorb (digest : UInt64) (byte : UInt8) : UInt64 :=
  (digest ^^^ byte.toUInt64) * prime

/-- The digest of a list of bytes. -/
def ofBytes (bytes : List UInt8) : UInt64 := bytes.foldl absorb offsetBasis

/-- The digest of a string: that of its UTF-8 bytes. -/
def ofString (s : String) : UInt64 := ofBytes s.toUTF8.data.toList

@[simp] theorem ofBytes_nil : ofBytes [] = offsetBasis := rfl

/-- A digest goes on from the digest of what came before. -/
theorem ofBytes_append (x y : List UInt8) :
    ofBytes (x ++ y) = y.foldl absorb (ofBytes x) := by
  simp [ofBytes]

example : ofString "a" = 0xAF63DC4C8601EC8C := by decide

end MonkeyLang.Digest
