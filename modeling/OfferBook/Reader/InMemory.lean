import OfferBook.Contract.OfferList
import OfferBook.Reader.Basic
import OfferBook.Tick

/-!
# Readers in memory

A reader that serves offer lists from memory the way the reader contract serves them from the
chain: a call about a market it does not hold fails, and a page holds at most as many offers as
were asked for, each with its neighbours on the page. It can be told to be out of reach, or to
answer with data that is no offer list.
-/

namespace OfferBook

/-- An offer held in memory. -/
structure HeldOffer where
  id : UInt64
  tick : Tick
  gives : UInt64
  maker : Address
  gasreq : UInt64
  kiloGasbase : UInt64
  gasprice : UInt64
  deriving DecidableEq

/-- An offer with the usual maker and gas amounts. -/
def HeldOffer.usual (id : UInt64) (tick : Tick) (gives : UInt64) : HeldOffer :=
  ⟨id, tick, gives, 0xbb, 150000, 300, 3⟩

/-- The offers held for a market, in the order in which they are served, and the next-offer
hint. -/
structure HeldMarket where
  market : Market
  nextOffer : UInt64
  offers : List HeldOffer
  deriving DecidableEq

/-- A reader's memory. -/
structure InMemoryReader where
  head : Nat
  markets : List HeldMarket
  failing : Bool
  corrupt : Bool
  deriving DecidableEq

namespace HeldOffer

/-- An offer as the contract lists it, between its neighbours on the page. -/
def listed (o : HeldOffer) (prev next : Option HeldOffer) : Contract.ListedOffer :=
  let idOf (n : Option HeldOffer) : Word := (n.map fun o => Word.ofUInt64 o.id).getD 0
  ⟨idOf prev, idOf next, o.tick.word, Word.ofUInt64 o.gives⟩

/-- An offer's details as the contract lists them. -/
def listedDetail (o : HeldOffer) : Contract.ListedDetail :=
  ⟨o.maker, Word.ofUInt64 o.gasreq, Word.ofUInt64 o.kiloGasbase, Word.ofUInt64 o.gasprice⟩

/-- The offers of a page behind an offer of it, each between its neighbours. -/
def listPage (prev : Option HeldOffer) : List HeldOffer → List Contract.ListedOffer
  | [] => []
  | o :: rest => o.listed prev rest.head? :: listPage (some o) rest

end HeldOffer

namespace HeldMarket

/-- The answer to a question about the market. -/
def page (m : HeldMarket) (maxOffers : Word) : Contract.OfferList :=
  let offers := m.offers.take maxOffers.toNat
  { nextOffer := Word.ofUInt64 m.nextOffer
    ids := offers.map fun o => Word.ofUInt64 o.id
    offers := HeldOffer.listPage none offers
    details := offers.map HeldOffer.listedDetail }

end HeldMarket

namespace InMemoryReader

/-- A reader that holds nothing and is within reach. -/
def empty : InMemoryReader := ⟨0, [], false, false⟩

/-- The reader holding this for a market instead of what it held. -/
def hold (r : InMemoryReader) (m : HeldMarket) : InMemoryReader :=
  { r with markets := m :: r.markets.filter fun held => held.market ≠ m.market }

/-- What is held for the market of a question. -/
def held? (r : InMemoryReader) (q : Contract.OfferListQuery) : Option HeldMarket :=
  r.markets.find? fun m =>
    m.market.outbound = q.outbound ∧ m.market.inbound = q.inbound ∧
      Word.ofUInt64 m.market.spacing = q.spacing

/-- The answer to one call. -/
def answer (r : InMemoryReader) (call : Contract.Call) : Contract.CallResult :=
  match (Contract.OfferListQuery.decode? call.data).bind fun q =>
      (r.held? q).map fun m => (q, m) with
  | none => ⟨false, []⟩
  | some (q, m) =>
    if r.corrupt then ⟨true, [0xde, 0xad]⟩ else ⟨true, (m.page q.maxOffers).encode⟩

/-- The fault of a reader out of reach. -/
def outOfReach : Fault := .transport (.down "mock transport failure")

/-- The answers of the reader. -/
def reader (r : InMemoryReader) : Reader where
  head := if r.failing then .error outOfReach else .ok r.head
  batch := fun calls _ => if r.failing then .error outOfReach else .ok (calls.map r.answer)

end InMemoryReader

end OfferBook
