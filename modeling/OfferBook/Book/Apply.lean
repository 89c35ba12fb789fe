import OfferBook.Book.Basic
import OfferBook.BookEvent
import OfferBook.Nesting
import OfferBook.Notice

/-!
# Applying events to a book

One event changes a book and the nesting beside it. A write replaces the offer of its identifier
or adds one, always as the last arrival at its tick; the gas base, which the event does not carry,
is kept from the offer that is replaced. A retraction and a failure remove the offer. A success
removes it only if the innermost open order did not write it: otherwise that write has already
said what is left of the offer. With no order open there is nothing to decide that by, and the
success is ignored.
-/

namespace OfferBook

/-- A book and the nesting beside it. -/
structure BookState where
  book : Book
  nesting : Nesting
  deriving DecidableEq

namespace Book

/-- The book with an offer written by an event. -/
def write (b : Book) (id : Word) (maker : Address) (tick : Tick) (gives : Word)
    (gasreq gasprice : UInt64) : Book :=
  let kilo := ((b.find? id).map fun e => e.detail.kiloGasbase).getD defaultKiloGasbase
  (b.remove id).insert ⟨id, Offer.written tick gives, ⟨maker, gasreq, kilo, gasprice⟩⟩

/-- The book without the offer, remarking on an offer that is not in it. -/
def retract (b : Book) (id : Word) : Traced Book :=
  ⟨b.remove id, if (b.find? id).isSome then [] else [.retractOfAbsentOffer]⟩

end Book

namespace BookState

/-- The offer leaves the book; the nesting stays. -/
def retract (s : BookState) (id : Word) : Traced BookState := do
  let book ← s.book.retract id
  pure { s with book }

/-- The state after one event. -/
def apply (s : BookState) : BookEvent → Traced BookState
  | .orderStart => pure { s with nesting := s.nesting.start }
  | .orderComplete =>
    match s.nesting.complete? with
    | some nesting => pure { s with nesting }
    | none => ⟨s, [.completeWithoutOrder]⟩
  | .offerWrite id maker tick gives gasreq gasprice =>
    pure ⟨s.book.write id maker tick gives gasreq gasprice, s.nesting.touch id⟩
  | .offerRetract id => s.retract id
  | .offerSuccess id =>
    let (settlement, nesting) := s.nesting.settle id
    match settlement with
    | .touched => pure { s with nesting }
    | .untouched => { s with nesting }.retract id
    | .noOpenOrder => ⟨{ s with nesting }, [.successWithoutOrder]⟩
  | .offerFail id => do
    let (settlement, nesting) := s.nesting.settle id
    Traced.noteIf (settlement = .noOpenOrder) .failWithoutOrder
    { s with nesting }.retract id
  | .offerSuccessWithPosthookData id => s.retract id
  | .offerFailWithPosthookData id => s.retract id

/-- The state after a sequence of events. -/
def applyAll (s : BookState) (events : List BookEvent) : BookState :=
  events.foldl (fun s e => (s.apply e).value) s

end BookState

end OfferBook
