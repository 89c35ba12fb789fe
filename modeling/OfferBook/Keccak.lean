import OfferBook.Bytes

/-!
# Keccak-256

Markets are tagged, events are selected and addresses are spelled by the 256-bit Keccak hash.
The state is 25 lanes of 64 bits, lane `x + 5 * y` standing in column `x` and row `y`, and a
round is the composition of its four steps. The message is padded by a one bit and a closing one
bit (the padding of the hash's submission, not the one its later standard adopted), cut into
blocks of 136 bytes, and absorbed block by block; the digest is the first four lanes.
-/

namespace OfferBook.Keccak

/-- The 25 lanes of the state. -/
abbrev Lanes := Vector UInt64 25

/-- Bytes absorbed by one permutation. -/
def rate : Nat := 136

/-- Rotation to the left; the amount counts modulo 64. -/
def rotl (x : UInt64) (n : UInt64) : UInt64 := (x <<< n) ||| (x >>> (64 - n))

/-- How far the lane of each position is rotated. -/
def rotations : Vector UInt64 25 :=
  #v[0, 1, 62, 28, 27, 36, 44, 6, 55, 20, 3, 10, 43, 25, 39, 41, 45, 15, 21, 8, 18, 2, 61, 56, 14]

/-- The constants of the 24 rounds. -/
def roundConstants : List UInt64 :=
  [0x0000000000000001, 0x0000000000008082, 0x800000000000808A, 0x8000000080008000,
   0x000000000000808B, 0x0000000080000001, 0x8000000080008081, 0x8000000000008009,
   0x000000000000008A, 0x0000000000000088, 0x0000000080008009, 0x000000008000000A,
   0x000000008000808B, 0x800000000000008B, 0x8000000000008089, 0x8000000000008003,
   0x8000000000008002, 0x8000000000000080, 0x000000000000800A, 0x800000008000000A,
   0x8000000080008081, 0x8000000000008080, 0x0000000080000001, 0x8000000080008008]

/-- Every lane takes the parities of the column before its own and the column after. -/
def theta (a : Lanes) : Lanes :=
  let parity : Vector UInt64 5 := Vector.ofFn fun x : Fin 5 =>
    a[x.val] ^^^ a[x.val + 5] ^^^ a[x.val + 10] ^^^ a[x.val + 15] ^^^ a[x.val + 20]
  Vector.ofFn fun i : Fin 25 =>
    a[i] ^^^ parity[(i.val + 4) % 5] ^^^ rotl parity[(i.val + 1) % 5] 1

/-- Lanes are rotated, then moved: position `(x, y)` takes the lane of `(x + 3 * y, x)`. -/
def rhoPi (a : Lanes) : Lanes :=
  Vector.ofFn fun i : Fin 25 =>
    let source := (i.val % 5 + 3 * (i.val / 5)) % 5 + 5 * (i.val % 5)
    have h : source < 25 := by omega
    rotl a[source] rotations[source]

/-- Every lane takes the next lane of its row where the one before that is clear. -/
def chi (a : Lanes) : Lanes :=
  Vector.ofFn fun i : Fin 25 =>
    let row := 5 * (i.val / 5)
    have h (k : Nat) : row + k % 5 < 25 := by omega
    have h1 := h (i.val + 1)
    have h2 := h (i.val + 2)
    a[i] ^^^ (~~~ a[row + (i.val + 1) % 5] &&& a[row + (i.val + 2) % 5])

/-- One round with its constant. -/
def round (a : Lanes) (constant : UInt64) : Lanes :=
  let b := chi (rhoPi (theta a))
  b.set 0 (b[0] ^^^ constant)

/-- The permutation of the state. -/
def permute (a : Lanes) : Lanes := roundConstants.foldl round a

/-- The message with its padding, a multiple of the rate. -/
def pad (message : Bytes) : Bytes :=
  let room := rate - message.length % rate
  message ++ (if room = 1 then [0x81] else 0x01 :: (List.replicate (room - 2) 0 ++ [0x80]))

/-- The number of a lane: eight bytes, least significant first. -/
def laneOfBytes (bs : Bytes) : UInt64 := UInt64.ofNat (ofLittleEndian bs)

/-- The bytes of a lane, least significant first. -/
def laneBytes (lane : UInt64) : Bytes := littleEndian 8 lane.toNat

/-- The lanes of the first `n` groups of eight bytes. -/
def lanesOfBytes : Nat → Bytes → List UInt64
  | 0, _ => []
  | n + 1, bs => laneOfBytes (bs.take 8) :: lanesOfBytes n (bs.drop 8)

/-- The state after one block. -/
def absorb (a : Lanes) (block : Bytes) : Lanes :=
  let lanes := (lanesOfBytes (rate / 8) block).toArray
  permute (Vector.ofFn fun i : Fin 25 => a[i] ^^^ lanes.getD i.val 0)

/-- The state after `n` blocks. -/
def absorbBlocks : Nat → Bytes → Lanes → Lanes
  | 0, _, a => a
  | n + 1, bs, a => absorbBlocks n (bs.drop rate) (absorb a (bs.take rate))

/-- The 32 bytes of the hash of a message. -/
def digest (message : Bytes) : Bytes :=
  let padded := pad message
  let a := absorbBlocks (padded.length / rate) padded (Vector.replicate 25 0)
  (a.toList.take 4).flatMap laneBytes

end OfferBook.Keccak

namespace OfferBook

/-- The Keccak-256 hash of a message as a word. -/
def keccak256 (message : Bytes) : Word := Word.ofBytes (Keccak.digest message)

end OfferBook
