import OfferBook.Bytes

/-!
# Logs

A log is what a contract leaves on the chain when it emits an event: up to a few words that can
be searched for, the topics, and data. A node that lists logs also says where they stand: block,
transaction, index in the block. It may leave any of that out, and it may announce that a block
with the log in it is no longer part of the chain.
-/

namespace OfferBook

/-- One emitted event as a node lists it. -/
structure Log where
  address : Address
  topics : List Word
  data : Bytes
  block : Option Nat
  tx : Option Word
  txIndex : Option Nat
  index : Option Nat
  removed : Bool
  deriving DecidableEq, Inhabited

namespace Log

/-- Block and index of the log, where both are known. -/
def position? (log : Log) : Option (Nat × Nat) :=
  log.block.bind fun block => log.index.map fun index => (block, index)

end Log

end OfferBook
