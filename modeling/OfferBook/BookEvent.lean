import OfferBook.Address
import OfferBook.Tick
import OfferBook.Contract.Event

/-!
# Book events

Of the contract's events eight concern a book: two bracket the execution of a market order and
six say what becomes of an offer. A book event keeps only what the book needs, with the tick in
range and the gas amounts in 64 bits. The set is closed; everything else the contract emits is
not a book event, and `ofContract` says so.

An event that was applied is reported at its place in the chain, as a `Located` value.
-/

namespace OfferBook

/-- An event a book reacts to. -/
inductive BookEvent where
  /-- A market order starts executing, possibly inside another one. -/
  | orderStart
  /-- The innermost executing market order is complete. -/
  | orderComplete
  /-- An offer is created or updated. -/
  | offerWrite (id : Word) (maker : Address) (tick : Tick) (gives : Word)
      (gasreq gasprice : UInt64)
  /-- An offer is withdrawn by its maker. -/
  | offerRetract (id : Word)
  /-- An offer was taken. -/
  | offerSuccess (id : Word)
  /-- An offer was taken and its maker answered with data. -/
  | offerSuccessWithPosthookData (id : Word)
  /-- An offer failed to deliver. -/
  | offerFail (id : Word)
  /-- An offer failed to deliver and its maker answered with data. -/
  | offerFailWithPosthookData (id : Word)
  deriving DecidableEq

/-- The tick of a written offer does not fit a tick. -/
structure TickOutOfRange where
  tick : Int
  deriving DecidableEq

namespace BookEvent

/-- The offer an event is about. -/
def offerId? : BookEvent → Option Word
  | orderStart | orderComplete => none
  | offerWrite id .. | offerRetract id | offerSuccess id | offerSuccessWithPosthookData id
  | offerFail id | offerFailWithPosthookData id => some id

/-- The name of an event. -/
def name : BookEvent → String
  | orderStart => "OrderStart"
  | orderComplete => "OrderComplete"
  | offerWrite .. => "OfferWrite"
  | offerRetract _ => "OfferRetract"
  | offerSuccess _ => "OfferSuccess"
  | offerSuccessWithPosthookData _ => "OfferSuccessWithPosthookData"
  | offerFail _ => "OfferFail"
  | offerFailWithPosthookData _ => "OfferFailWithPosthookData"

/-- The values an event carries, by name and in the order of listing. -/
def fields : BookEvent → List (String × String)
  | orderStart | orderComplete => []
  | offerWrite id maker tick gives gasreq gasprice =>
    [("id", toString id.toNat), ("maker", maker.plainText), ("tick", tick.text),
     ("gives", toString gives.toNat), ("gasreq", toString gasreq.toNat),
     ("gasprice", toString gasprice.toNat)]
  | offerRetract id | offerSuccess id | offerSuccessWithPosthookData id
  | offerFail id | offerFailWithPosthookData id => [("id", toString id.toNat)]

/-- An event as a listing shows it: its name, then its values in braces. -/
def text (e : BookEvent) : String :=
  match e.fields with
  | [] => e.name
  | fs =>
    let shown := ", ".intercalate (fs.map fun f => f.1 ++ ": " ++ f.2)
    e.name ++ " \x7b " ++ shown ++ " \x7d"

/-- The hash of the market an event of the contract belongs to and the book event it is; nothing
for the kinds no book reacts to. -/
def ofContract : Contract.Event → Except TickOutOfRange (Option (Word × BookEvent))
  | .offerWrite market maker tick gives gasprice gasreq id =>
    match Tick.ofInt? tick.toInt with
    | some t => .ok (some (market, offerWrite id maker t gives gasreq.clamp64 gasprice.clamp64))
    | none => .error ⟨tick.toInt⟩
  | .offerRetract market _ id _ => .ok (some (market, offerRetract id))
  | .offerSuccess market _ id .. => .ok (some (market, offerSuccess id))
  | .offerSuccessWithPosthookData market _ id .. =>
    .ok (some (market, offerSuccessWithPosthookData id))
  | .offerFail market _ id .. => .ok (some (market, offerFail id))
  | .offerFailWithPosthookData market _ id .. => .ok (some (market, offerFailWithPosthookData id))
  | .orderStart market .. => .ok (some (market, orderStart))
  | .orderComplete market .. => .ok (some (market, orderComplete))
  | .setActive .. | .setFee .. | .credit .. | .debit .. => .ok none

end BookEvent

/-- A value at its place in the chain. -/
structure Located (α : Type) where
  block : Nat
  tx : Word
  txIndex : Nat
  logIndex : Nat
  event : α
  deriving DecidableEq

namespace Located

variable {α β : Type}

/-- Another value at the same place. -/
def pass (x : Located α) (event : β) : Located β :=
  ⟨x.block, x.tx, x.txIndex, x.logIndex, event⟩

end Located

end OfferBook
