import OfferBook.Book.Basic
import OfferBook.Deployment
import OfferBook.Notice
import OfferBook.Reader.Basic

/-!
# Fetching a book

The book of a market is fetched by one batch of one call: the first page of the market's offer
list. What comes back is classified completely. A failed batch is its own fault; a call that did
not succeed means the market does not exist, which is the one permanent fault; return data that
is no offer list, and a list that makes no book, are faults of their own. A page that is full
while the contract hints at a next offer is accepted with a remark, since the book is then cut.
-/

namespace OfferBook

/-- What it takes to fetch a market's book. -/
structure Fetcher where
  reader : Address
  market : Market
  pageSize : UInt64
  deriving DecidableEq

namespace Fetcher

/-- The batch that describes the market's book. -/
def request (f : Fetcher) : List Contract.Call :=
  [⟨f.reader, (Contract.OfferListQuery.ofMarket f.market f.pageSize).encode⟩]

/-- Whether an offer list fills the page and goes on behind it. -/
def truncates (f : Fetcher) (l : Contract.OfferList) : Bool :=
  f.pageSize.toNat ≤ l.ids.length && l.nextOffer != 0

/-- The book that the first result of a batch describes. -/
def interpretResult (f : Fetcher) (block : Nat) (result : Contract.CallResult) :
    Traced (Except Fault Book) :=
  if result.success then
    match Contract.OfferList.decode? result.data with
    | none => pure (.error .undecodable)
    | some l => do
      Traced.noteIf (f.truncates l) .truncatedBook
      pure ((Book.ofOfferList block l).mapError .decode)
  else pure (.error (.marketNotFound f.market))

section

variable {f : Fetcher} {block : Nat} {result : Contract.CallResult} {l : Contract.OfferList}

theorem interpretResult_of_failed (hsuccess : result.success = false) :
    f.interpretResult block result = ⟨.error (.marketNotFound f.market), []⟩ := by
  rw [interpretResult, hsuccess]
  rfl

theorem interpretResult_of_unread (hsuccess : result.success = true)
    (hl : Contract.OfferList.decode? result.data = none) :
    f.interpretResult block result = ⟨.error .undecodable, []⟩ := by
  rw [interpretResult, if_pos hsuccess, hl]
  rfl

theorem interpretResult_of_read (hsuccess : result.success = true)
    (hl : Contract.OfferList.decode? result.data = some l) :
    f.interpretResult block result = ⟨(Book.ofOfferList block l).mapError .decode,
      if f.truncates l then [.truncatedBook] else []⟩ := by
  rw [interpretResult, if_pos hsuccess, hl, ← List.append_nil (ite _ _ _)]
  rfl

end

/-- The book that the answer to the batch describes. -/
def interpret (f : Fetcher) (block : Nat) (answer : Except Fault (List Contract.CallResult)) :
    Traced (Except Fault Book) :=
  match answer with
  | .error fault => pure (.error fault)
  | .ok [] => pure (.error (.decode .emptyBatch))
  | .ok (result :: _) => f.interpretResult block result

/-- The market's book as of a block. -/
def tryFetch (f : Fetcher) (r : Reader) (block : Nat) : Traced (Except Fault Book) :=
  f.interpret block (r.batch f.request block)

/-- The market's book as of a block, or a book without offers if there is none to be had. -/
def fetch (f : Fetcher) (r : Reader) (block : Nat) : Traced Book := do
  match ← f.tryFetch r block with
  | .ok book => pure book
  | .error _ => ⟨Book.empty block, [.fetchFailed]⟩

end Fetcher

end OfferBook
