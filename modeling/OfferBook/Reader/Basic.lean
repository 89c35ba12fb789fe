import OfferBook.Contract.Aggregate
import OfferBook.Fault

/-!
# Readers

A reader is what the chain has to say at one moment: which block is its head, and what a batch of
calls returns as of a block. Either may fail. Within one moment the answers do not change, so a
reader is a pair of answers and not a process; an operation that asks reports what it asked for
as a list of requests.
-/

namespace OfferBook

/-- The answers of the chain at one moment. -/
structure Reader where
  head : Except Fault Nat
  batch : List Contract.Call → Nat → Except Fault (List Contract.CallResult)

/-- Something asked of a reader. -/
inductive Request where
  | head
  | batch (calls : List Contract.Call) (block : Nat)
  deriving DecidableEq

/-- Whether a request is a batch of calls. -/
def Request.isBatch : Request → Bool
  | head => false
  | batch .. => true

/-- A reader that answers every batch with the same results. -/
def Reader.withResults (r : Reader) (results : List Contract.CallResult) : Reader :=
  { r with batch := fun _ _ => .ok results }

end OfferBook
