import OfferBook.Calendar
import OfferBook.Word

/-!
# Instants

An instant is a block with its timestamp. Its text shows the block and, where there is a time to
show, the time. A timestamp is a word of 64 bits that the calendar reads with a sign, so the upper
half of its range lies before 1970; zero means that the time is not known.
-/

namespace OfferBook

/-- A block and its timestamp in seconds. -/
structure Instant where
  block : Nat
  timestamp : Nat
  deriving DecidableEq, Inhabited

namespace Instant

/-- The same time at the next block. -/
def next (i : Instant) : Instant := ⟨next64 i.block, i.timestamp⟩

/-- The order of instants: by block, then by timestamp. -/
def le (a b : Instant) : Bool :=
  a.block < b.block || (a.block == b.block && a.timestamp ≤ b.timestamp)

/-- The timestamp as a number of 64 bits with a sign. -/
def seconds (i : Instant) : Int := (BitVec.ofNat 64 i.timestamp).toInt

/-- The instant as listings show it. -/
def text (i : Instant) : String :=
  let block := "#" ++ toString i.block
  match Calendar.timeText? i.seconds with
  | some time => if i.timestamp = 0 then block else block ++ " @ " ++ time
  | none => block

end Instant

end OfferBook
