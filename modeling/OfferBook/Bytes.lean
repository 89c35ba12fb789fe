import OfferBook.Word

/-!
# Bytes and their hexadecimal text

Call data, return data and log data are sequences of bytes. Numbers stand in them with the most
significant byte first; `bigEndian` writes a number in a fixed number of bytes and `ofBigEndian`
reads any number of them back. A reader of data never looks further than it must: `takeWord`
splits one word off the front and leaves the rest, whatever the rest is.

Main results:

* `ofBigEndian_bigEndian`: a number written in `k` bytes reads back, as far as they go;
* `takeWord_bytes_append`: a word written in front of any data is read off it unchanged;
* `takeWords_eq`: the words read off any data are those at their places, if it is long enough.
-/

namespace OfferBook

/-- A sequence of bytes. -/
abbrev Bytes := List UInt8

/-- The number `n` in `k` bytes, least significant first; higher digits are dropped. -/
def littleEndian : Nat → Nat → Bytes
  | 0, _ => []
  | k + 1, n => UInt8.ofNat n :: littleEndian k (n / 256)

/-- The number that bytes write, least significant first. -/
def ofLittleEndian (bs : Bytes) : Nat := bs.foldr (fun b n => n * 256 + b.toNat) 0

/-- The number `n` in `k` bytes, most significant first; higher digits are dropped. -/
def bigEndian (k n : Nat) : Bytes := (littleEndian k n).reverse

/-- The number that bytes write, most significant first. -/
def ofBigEndian (bs : Bytes) : Nat := bs.foldl (fun n b => n * 256 + b.toNat) 0

/-- How many numbers `k` bytes write. -/
def byteSpan : Nat → Nat
  | 0 => 1
  | k + 1 => 256 * byteSpan k

@[simp] theorem length_littleEndian (k n : Nat) : (littleEndian k n).length = k := by
  induction k generalizing n with
  | zero => rfl
  | succ k ih => simp [littleEndian, ih]

@[simp] theorem length_bigEndian (k n : Nat) : (bigEndian k n).length = k := by
  simp [bigEndian]

theorem ofLittleEndian_littleEndian (k n : Nat) :
    ofLittleEndian (littleEndian k n) = n % byteSpan k := by
  induction k generalizing n with
  | zero => simp [littleEndian, ofLittleEndian, byteSpan, Nat.mod_one]
  | succ k ih =>
    have hb : (UInt8.ofNat n).toNat = n % 256 := UInt8.toNat_ofNat'
    have hs : n % (256 * byteSpan k) = n % 256 + 256 * (n / 256 % byteSpan k) := Nat.mod_mul
    have hr := ih (n / 256)
    simp only [ofLittleEndian, littleEndian, byteSpan, List.foldr_cons] at hr ⊢
    rw [hr, hb, hs, Nat.mul_comm, Nat.add_comm]

theorem ofBigEndian_bigEndian (k n : Nat) : ofBigEndian (bigEndian k n) = n % byteSpan k := by
  rw [ofBigEndian, bigEndian, List.foldl_reverse]
  exact ofLittleEndian_littleEndian k n

namespace Word

/-- The 32 bytes of a word. -/
def bytes (w : Word) : Bytes := bigEndian 32 w.toNat

@[simp] theorem length_bytes (w : Word) : w.bytes.length = 32 := length_bigEndian 32 _

/-- The word that bytes write. -/
def ofBytes (bs : Bytes) : Word := BitVec.ofNat 256 (ofBigEndian bs)

@[simp] theorem ofBytes_bytes (w : Word) : ofBytes w.bytes = w := by
  have h : w.toNat % byteSpan 32 = w.toNat := Nat.mod_eq_of_lt w.isLt
  rw [ofBytes, bytes, ofBigEndian_bigEndian, h, BitVec.ofNat_toNat, BitVec.setWidth_eq]

end Word

/-- The first word of the data and the data after it; `none` if fewer than 32 bytes are left. -/
def takeWord (data : Bytes) : Option (Word × Bytes) :=
  let (front, rest) := data.splitAt 32
  if front.length = 32 then some (Word.ofBytes front, rest) else none

theorem takeWord_bytes_append (w : Word) (rest : Bytes) :
    takeWord (w.bytes ++ rest) = some (w, rest) := by
  simp [takeWord, List.splitAt_eq]

/-- The first `n` words of the data and the data after them. -/
def takeWords : Nat → Bytes → Option (List Word × Bytes)
  | 0, data => some ([], data)
  | n + 1, data =>
    (takeWord data).bind fun (w, rest) =>
      (takeWords n rest).map fun (ws, rest) => (w :: ws, rest)

theorem takeWords_append (ws : List Word) (rest : Bytes) :
    takeWords ws.length (ws.flatMap Word.bytes ++ rest) = some (ws, rest) := by
  induction ws with
  | nil => rfl
  | cons w ws ih =>
    simp [takeWords, List.append_assoc, takeWord_bytes_append, ih]

/-- The word at a place of the data, places counted in words. -/
def wordAt (data : Bytes) (i : Nat) : Word := Word.ofBytes ((data.drop (32 * i)).take 32)

theorem takeWord_eq (data : Bytes) :
    takeWord data = if 32 ≤ data.length then some (wordAt data 0, data.drop 32) else none := by
  have hfront : (data.take 32).length = 32 ↔ 32 ≤ data.length := by
    rw [List.length_take]
    omega
  simp only [takeWord, wordAt, List.splitAt_eq, hfront, Nat.mul_zero, List.drop_zero]

theorem takeWords_eq (n : Nat) (data : Bytes) :
    takeWords n data =
      if 32 * n ≤ data.length then some ((List.range n).map (wordAt data), data.drop (32 * n))
      else none := by
  induction n generalizing data with
  | zero => simp [takeWords]
  | succ n ih =>
    have hplaces : (fun i => wordAt (data.drop 32) i) = fun i => wordAt data (i + 1) := by
      funext i
      rw [wordAt, wordAt, List.drop_drop, Nat.mul_succ, Nat.add_comm]
    by_cases hword : 32 ≤ data.length
    · have hrest : (32 * n ≤ (data.drop 32).length) = (32 * (n + 1) ≤ data.length) := by
        rw [List.length_drop]
        apply propext
        omega
      simp only [takeWords, takeWord_eq, if_pos hword, Option.bind_some, ih, hrest, hplaces]
      split
      · simp [List.range_succ_eq_map, List.drop_drop, Nat.mul_succ, Nat.add_comm]
      · rfl
    · have hwords : ¬ 32 * (n + 1) ≤ data.length := by omega
      simp [takeWords, takeWord_eq, hword, hwords]

/-- The lower-case hexadecimal digit of a number below sixteen. -/
def hexDigit (n : Nat) : Char :=
  if n < 10 then Char.ofNat ('0'.toNat + n) else Char.ofNat ('a'.toNat + (n - 10))

/-- The value of a hexadecimal digit of either case. -/
def hexValue? (c : Char) : Option Nat :=
  if '0' ≤ c ∧ c ≤ '9' then some (c.toNat - '0'.toNat)
  else if 'a' ≤ c ∧ c ≤ 'f' then some (c.toNat - 'a'.toNat + 10)
  else if 'A' ≤ c ∧ c ≤ 'F' then some (c.toNat - 'A'.toNat + 10)
  else none

/-- The four-bit halves of the bytes, high half first. -/
def nibbles (bs : Bytes) : List Nat :=
  bs.flatMap fun b => [b.toNat / 16, b.toNat % 16]

/-- The hexadecimal digits of the bytes, two for each. -/
def hexDigits (bs : Bytes) : List Char := (nibbles bs).map hexDigit

/-- The text of the bytes: `0x` and two lower-case digits for each. -/
def hexText (bs : Bytes) : String := "0x" ++ String.ofList (hexDigits bs)

/-- The bytes of an even number of hexadecimal digits. -/
def ofHexDigits? : List Char → Option Bytes
  | [] => some []
  | h :: l :: rest =>
    (hexValue? h).bind fun h => (hexValue? l).bind fun l =>
      (ofHexDigits? rest).map (UInt8.ofNat (16 * h + l) :: ·)
  | [_] => none

/-- The digits after an optional `0x` or `0X`. -/
def dropHexMark : List Char → List Char
  | '0' :: 'x' :: rest => rest
  | '0' :: 'X' :: rest => rest
  | digits => digits

/-- The bytes that a hexadecimal text writes, with or without its mark. -/
def ofHexText? (text : String) : Option Bytes := ofHexDigits? (dropHexMark text.toList)

/-- The shortest hexadecimal text of a number, as node requests write quantities. -/
def quantityText (n : Nat) : String := "0x" ++ String.ofList (Nat.toDigits 16 n)

end OfferBook
