import OfferBook.Keccak

/-!
# Addresses as text

An address is written as `0x` and forty hexadecimal digits. The case of the letters carries a
checksum: a letter is a capital when the digit at its place in the hash of the lower-case text is
eight or more. Reading accepts any case and does without the mark; the checksum is not verified.
-/

namespace OfferBook.Address

/-- The forty lower-case digits. -/
def digits (a : Address) : List Char := hexDigits (bigEndian 20 a.toNat)

/-- The text without checksum. -/
def plainText (a : Address) : String := "0x" ++ String.ofList a.digits

/-- The digit written as the hash digit at its place asks. -/
def checkedDigit (digit : Char) (hashDigit : Nat) : Char :=
  if 8 ≤ hashDigit then digit.toUpper else digit

/-- The text with the checksum in its letters' case. -/
def text (a : Address) : String :=
  let hash := nibbles (Keccak.digest (String.ofList a.digits).toUTF8.toList)
  "0x" ++ String.ofList (List.zipWith checkedDigit a.digits hash)

/-- The address that a text writes: forty digits of any case after an optional mark. -/
def ofText? (text : String) : Option Address :=
  let digits := dropHexMark text.toList
  if digits.length = 40 then
    (ofHexDigits? digits).map fun bs => BitVec.ofNat 160 (ofBigEndian bs)
  else none

end OfferBook.Address
