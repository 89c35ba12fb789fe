/-!
# Words of 256 bits

Everything a contract says is said in words of 256 bits, so a word is the one numeric type that
crosses the border of this library. Three readings of a word are used: the natural number it
writes, the signed number it writes in two's complement, and the address in its low 160 bits.
The book keeps gas amounts in 64 bits, which `clamp64` reaches by saturation, never by wrapping;
volumes are summed by `satAdd`, which stops at the greatest word. Blocks and log indices, which
are counted up and not computed with, start again behind the greatest number of 64 bits.

Main results:

* `toNat_satAdd`: the saturating sum is the lesser of the true sum and the greatest word;
* `toNat_clamp64`: the 64-bit reading is the lesser of the word and the greatest 64-bit number;
* `clamp64_ofUInt64`: a 64-bit number written as a word reads back unchanged;
* `next64_of_lt`: counting in 64 bits is counting, below the greatest number.
-/

namespace OfferBook

/-- An unsigned integer of 256 bits. -/
abbrev Word := BitVec 256

/-- An account of the chain: 160 bits. -/
abbrev Address := BitVec 160

/-- The number behind a number of 64 bits. Zero stands behind the greatest. -/
def next64 (n : Nat) : Nat := (n + 1) % 0x10000000000000000

theorem next64_of_lt {n : Nat} (h : n + 1 < 0x10000000000000000) : next64 n = n + 1 :=
  Nat.mod_eq_of_lt h

/-- The number in front of a number of 64 bits. The greatest stands in front of zero. -/
def prev64 (n : Nat) : Nat := if n = 0 then 0xffffffffffffffff else n - 1

theorem prev64_succ (n : Nat) : prev64 (n + 1) = n := rfl

namespace Word

/-- The greatest word as a natural number. -/
def maxNat : Nat := 0xffffffffffffffffffffffffffffffffffffffffffffffffffffffffffffffff

theorem toNat_le_maxNat (w : Word) : w.toNat ≤ maxNat := Nat.le_of_lt_succ w.isLt

theorem toNat_ofNat_of_le {n : Nat} (h : n ≤ maxNat) : (BitVec.ofNat 256 n).toNat = n :=
  BitVec.toNat_ofNat n 256 ▸ Nat.mod_eq_of_lt (Nat.lt_succ_of_le h)

/-- Sum that stays at the greatest word once it would pass it. -/
def satAdd (a b : Word) : Word := BitVec.ofNat 256 (min (a.toNat + b.toNat) maxNat)

theorem toNat_satAdd (a b : Word) : (satAdd a b).toNat = min (a.toNat + b.toNat) maxNat :=
  toNat_ofNat_of_le (Nat.min_le_right _ _)

/-- The greatest number of 64 bits. -/
def max64 : Nat := 0xffffffffffffffff

/-- The word as a 64-bit number, saturated. -/
def clamp64 (w : Word) : UInt64 := UInt64.ofNat (min w.toNat max64)

theorem toNat_clamp64 (w : Word) : (clamp64 w).toNat = min w.toNat max64 :=
  UInt64.toNat_ofNat_of_lt' (Nat.lt_succ_of_le (Nat.min_le_right _ _))

/-- A 64-bit number as a word. -/
def ofUInt64 (n : UInt64) : Word := BitVec.ofNat 256 n.toNat

theorem toNat_ofUInt64 (n : UInt64) : (ofUInt64 n).toNat = n.toNat :=
  toNat_ofNat_of_le (Nat.le_trans (Nat.le_of_lt n.toNat_lt) (by decide))

theorem clamp64_ofUInt64 (n : UInt64) : clamp64 (ofUInt64 n) = n := by
  apply UInt64.toNat_inj.mp
  rw [toNat_clamp64, toNat_ofUInt64]
  exact Nat.min_eq_left (Nat.le_of_lt_succ n.toNat_lt)

/-- A Boolean as a contract writes it: zero or one. -/
def ofBool (b : Bool) : Word := if b then 1 else 0

/-- The Boolean a contract reads: any word but zero is true. -/
def truth (w : Word) : Bool := w != 0

theorem truth_ofBool (b : Bool) : truth (ofBool b) = b := by cases b <;> decide

/-- An address as a word, its 96 high bits clear. -/
def ofAddress (a : Address) : Word := a.setWidth 256

/-- The address in the low 160 bits of a word. -/
def address (w : Word) : Address := w.setWidth 160

theorem address_ofAddress (a : Address) : address (ofAddress a) = a := by
  simp [address, ofAddress]

end Word

end OfferBook
