import OfferBook.Word

/-!
# Ticks

Prices are logarithmic: an offer stands at an integer tick, and a lower tick is a better price
for the taker. A tick fits 32 bits with a sign. The contract speaks of ticks in whole words, so
every tick that enters a book has passed `ofInt?`.

Main results:

* `ofInt?_val`: a tick read back from its own number is that tick;
* `ofInt?_eq_some_iff`: a number is read as the tick of that number;
* `ofInt?_eq_none_iff`: the only numbers refused are those outside the range.
-/

namespace OfferBook

/-- A price coordinate of 32 bits with a sign. -/
structure Tick where
  val : Int
  ge : -0x80000000 ≤ val
  lt : val < 0x80000000
  deriving DecidableEq

namespace Tick

instance : LE Tick := ⟨fun a b => a.val ≤ b.val⟩
instance : LT Tick := ⟨fun a b => a.val < b.val⟩
instance (a b : Tick) : Decidable (a ≤ b) := inferInstanceAs (Decidable (a.val ≤ b.val))
instance (a b : Tick) : Decidable (a < b) := inferInstanceAs (Decidable (a.val < b.val))
instance : Inhabited Tick := ⟨⟨0, by decide, by decide⟩⟩

theorem le_def {a b : Tick} : a ≤ b ↔ a.val ≤ b.val := Iff.rfl

theorem lt_def {a b : Tick} : a < b ↔ a.val < b.val := Iff.rfl

theorem ext {a b : Tick} (h : a.val = b.val) : a = b := by
  cases a; cases b; simp_all

/-- The number is out of the range of ticks. -/
def Outside (n : Int) : Prop := n < -0x80000000 ∨ 0x80000000 ≤ n

instance (n : Int) : Decidable (Outside n) := inferInstanceAs (Decidable (_ ∨ _))

/-- The tick of a number, if it is in range. -/
def ofInt? (n : Int) : Option Tick :=
  if h : -0x80000000 ≤ n ∧ n < 0x80000000 then some ⟨n, h.1, h.2⟩ else none

@[simp] theorem ofInt?_val (t : Tick) : ofInt? t.val = some t := by
  rw [ofInt?, dif_pos ⟨t.ge, t.lt⟩]

theorem ofInt?_eq_some_iff {n : Int} {t : Tick} : ofInt? n = some t ↔ n = t.val := by
  constructor
  · intro h
    unfold ofInt? at h
    split at h
    · obtain rfl := Option.some.inj h
      rfl
    · cases h
  · rintro rfl
    exact ofInt?_val t

theorem ofInt?_eq_none_iff {n : Int} :
    ofInt? n = none ↔ n < -0x80000000 ∨ 0x80000000 ≤ n := by
  simp only [ofInt?, dite_eq_right_iff, reduceCtorEq, imp_false]
  omega

/-- The tick as a word in two's complement. -/
def word (t : Tick) : Word := BitVec.ofInt 256 t.val

@[simp] theorem toInt_word (t : Tick) : t.word.toInt = t.val := by
  have := t.ge
  have := t.lt
  rw [word, BitVec.toInt_ofInt, Int.bmod_eq_of_le (by omega) (by omega)]

/-- The tick in decimal. -/
def text (t : Tick) : String := toString t.val

end Tick

end OfferBook
