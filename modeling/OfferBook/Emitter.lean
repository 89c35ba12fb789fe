import OfferBook.BookEvent
import OfferBook.Deployment
import OfferBook.Market

/-!
# Emitting logs

An emitter writes the logs of one market the way the contract does, into one block: every log
takes the next index, and all of them belong to one transaction. Parameters that no book looks at
have fixed values.
-/

namespace OfferBook

/-- Where the next log of a market goes. -/
structure Emitter where
  address : Address
  market : Market
  block : Nat
  txIndex : Nat
  nextIndex : Nat
  deriving DecidableEq

namespace Emitter

/-- The account that takes offers. -/
def taker : Address := 0xcc

/-- The gas request of offers written without one of their own. -/
def usualGasreq : UInt64 := 100000

/-- The gas price of offers written without one of their own. -/
def usualGasprice : UInt64 := 2

/-- A word whose bytes are all the same. -/
def repeated (byte : UInt8) : Word := Word.ofBytes (List.replicate 32 byte)

/-- An emitter at the start of a block, at the usual contract. -/
def new (market : Market) (block : Nat) : Emitter :=
  ⟨Deployment.arbitrum.orderBook, market, block, 0, 0⟩

/-- The emitter at the start of another block. -/
def atBlock (e : Emitter) (block : Nat) : Emitter := { e with block, nextIndex := 0 }

/-- The hash of the transaction all logs of the emitter belong to. -/
def txHash (e : Emitter) : Word := BitVec.ofNat 256 (e.block * 1000 + e.txIndex)

/-- The next log, with the given topics and data, and the emitter behind it. -/
def emitRaw (e : Emitter) (topics : List Word) (data : Bytes) : Log × Emitter :=
  ({ address := e.address
     topics
     data
     block := some e.block
     tx := some e.txHash
     txIndex := some e.txIndex
     index := some e.nextIndex
     removed := false },
    { e with nextIndex := next64 e.nextIndex })

/-- The log of an event of the contract. -/
def emit (e : Emitter) (event : Contract.Event) : Log × Emitter :=
  e.emitRaw event.topics event.data

/-- The event of the contract that reports a book event of the market. -/
def eventOf (e : Emitter) : BookEvent → Contract.Event
  | .orderStart => .orderStart e.market.hash taker 0 1 true
  | .orderComplete => .orderComplete e.market.hash taker 0
  | .offerWrite id maker tick gives gasreq gasprice =>
    .offerWrite e.market.hash maker tick.word gives (Word.ofUInt64 gasprice)
      (Word.ofUInt64 gasreq) id
  | .offerRetract id => .offerRetract e.market.hash 0 id false
  | .offerSuccess id => .offerSuccess e.market.hash taker id 1 1
  | .offerSuccessWithPosthookData id =>
    .offerSuccessWithPosthookData e.market.hash taker id 1 1 (repeated 0x01)
  | .offerFail id => .offerFail e.market.hash taker id 1 1 0 (repeated 0x02)
  | .offerFailWithPosthookData id =>
    .offerFailWithPosthookData e.market.hash taker id 1 1 0 (repeated 0x02) (repeated 0x01)

/-- The log of a book event of the market. -/
def emitBook (e : Emitter) (event : BookEvent) : Log × Emitter := e.emit (e.eventOf event)

/-- The logs of a sequence of book events. -/
def emitAll (e : Emitter) : List BookEvent → List Log
  | [] => []
  | event :: events =>
    let (log, e) := e.emitBook event
    log :: e.emitAll events

/-- The log of a write whose tick need not be one a book accepts. -/
def emitWrite (e : Emitter) (id : Word) (maker : Address) (tick gives : Word) : Log × Emitter :=
  e.emit (.offerWrite e.market.hash maker tick gives (Word.ofUInt64 usualGasprice)
    (Word.ofUInt64 usualGasreq) id)

/-- The log of an event that opens or closes the market, which no book reacts to. -/
def emitActive (e : Emitter) (active : Bool) : Log × Emitter :=
  e.emit (.setActive e.market.hash e.market.outbound e.market.inbound
    (Word.ofUInt64 e.market.spacing) active)

/-- The log of an event the contract does not declare. -/
def emitUndeclared (e : Emitter) : Log × Emitter := e.emitRaw [repeated 0xee] []

/-- A log that claims to be a write and holds the text `garbage`. -/
def emitGarbage (e : Emitter) : Log × Emitter :=
  e.emitRaw [Contract.EventKind.offerWrite.topic, e.market.hash] "garbage".toUTF8.toList

end Emitter

/-- A log of a block that is no longer part of the chain. -/
def Log.asRemoved (log : Log) : Log := { log with removed := true }

end OfferBook
