import OfferBook.Book.Apply
import OfferBook.Fetcher
import OfferBook.History
import OfferBook.Route

/-!
# Pools

A pool follows the book of one market. It is seeded with a fetched book and then fed with the
contract's logs in the order of the chain, those of other markets included, which only advance
the block its latest snapshot is valid for.

A log is taken into account at most once. Three positions say what is already reflected: the
block of the latest snapshot, the block of seeding and the position of the last log that had one.
A log below the first, at or below the second or at or below the third is ignored, and so is a
log without a block and a log whose block was abandoned.

Seeding either replaces everything the pool knows or leaves it as it is: after a transient fault
only the failure is remembered, after a permanent one nothing.
-/

namespace OfferBook

/-- The book of one market, followed from block to block. -/
structure Pool where
  /-- Key of the exchange the market belongs to. -/
  dex : String
  fetcher : Fetcher
  history : History
  nesting : Nesting
  /-- The block of the last successful seeding. -/
  seededAt : Option Nat
  /-- Block and index of the last log taken into account since. -/
  lastLog : Option (Nat × Nat)
  /-- Whether the last attempt to seed the pool failed for the time being. -/
  failed : Bool
  /-- How many requests were counted since the pool failed. -/
  attempts : Nat
  deriving DecidableEq

/-- What feeding one log to a pool comes to: the pool afterwards and the event applied. -/
structure Fed where
  pool : Pool
  applied : Option (Located BookEvent)
  deriving DecidableEq

/-- Whether a position comes no later than another. -/
def positionLe (a b : Nat × Nat) : Bool := a.1 < b.1 || (a.1 == b.1 && a.2 ≤ b.2)

namespace Pool

/-- A pool that knows nothing yet. -/
def new (dex : String) (d : Deployment) (m : Market) (c : PoolConfig) : Pool where
  dex
  fetcher := ⟨d.reader, m, c.pageSize⟩
  history := History.new c.retained
  nesting := .idle
  seededAt := none
  lastLog := none
  failed := false
  attempts := 0

/-- The market the pool follows. -/
def market (p : Pool) : Market := p.fetcher.market

/-- The key under which quotes are correlated back to the pool. -/
def cacheKey (p : Pool) : String := p.market.cacheKey p.dex

/-- Whether the pool was seeded and the last attempt to seed it succeeded. -/
def isReady (p : Pool) : Bool := p.seededAt.isSome && !p.failed

/-- The snapshot valid at a block. -/
def stateAt? (p : Pool) (block : Nat) : Option Book := p.history.atOrBefore? block

/-- The most recent snapshot. -/
def latest? (p : Pool) : Option Book := p.history.latest?

/-- The pool after a failed attempt to seed it. -/
def markFailed (p : Pool) : Pool := { p with failed := true }

/-- The number of values the count of attempts takes before it starts again. -/
def attemptCycle : Nat := 0x100000000

/-- The pool with one more request counted. -/
def countAttempt (p : Pool) : Pool := { p with attempts := (p.attempts + 1) % attemptCycle }

/-- The pool that starts over from a fetched book. -/
def restart (p : Pool) (block : Nat) (book : Book) : Pool :=
  { p with
    history := p.history.clear.insert book
    nesting := .idle
    seededAt := some block
    lastLog := none
    failed := false
    attempts := 0 }

/-- The pool after an attempt to seed it at a block, by what was fetched. -/
def seedWith (p : Pool) (block : Nat) : Except Fault Book → Pool
  | .ok book => p.restart block book
  | .error fault => if fault.isPermanent then p else p.markFailed

/-- Seeds the pool with the market's book as of a block; the fault, if there is one, is beside
the pool. -/
def seed (p : Pool) (r : Reader) (block : Nat) : Traced (Pool × Option Fault) := do
  let fetched ← p.fetcher.tryFetch r block
  pure (p.seedWith block fetched, match fetched with | .ok _ => none | .error f => some f)

/-- Whether a log at this place is already reflected in the latest snapshot. -/
def reflects (p : Pool) (latest : Book) (block : Nat) (position : Option (Nat × Nat)) : Bool :=
  block < latest.block
    || (match p.seededAt with | some seeded => block ≤ seeded | none => false)
    || (match position, p.lastLog with
        | some position, some last => positionLe position last
        | _, _ => false)

/-- The pool with the position of a log noted, if the log has one. -/
def noteLast (p : Pool) (position : Option (Nat × Nat)) : Pool :=
  match position with
  | some _ => { p with lastLog := position }
  | none => p

/-- An event at the place of its log; what the log does not say counts as zero. -/
def locate (log : Log) (block : Nat) (event : BookEvent) : Located BookEvent :=
  ⟨block, log.tx.getD 0, log.txIndex.getD 0, log.index.getD 0, event⟩

/-- Takes a log into account that stands at a block at or behind the latest snapshot. -/
def advance (p : Pool) (latest : Book) (block : Nat) (log : Log) : Traced Fed := do
  let route := Route.ofLog p.market.hash log
  let _ ← (⟨(), route.notices⟩ : Traced Unit)
  match route with
  | .apply event => do
    let next ← BookState.apply ⟨latest, p.nesting⟩ event
    let history ← p.history.store (next.book.atBlock block)
    pure ⟨{ p with history, nesting := next.nesting }.noteLast log.position?,
      some (locate log block event)⟩
  | _ =>
    if latest.block < block then do
      let history ← p.history.store (latest.atBlock block)
      pure ⟨{ p with history }.noteLast log.position?, none⟩
    else pure ⟨p.noteLast log.position?, none⟩

/-- Feeds one log to the pool. -/
def onLog (p : Pool) (log : Log) : Traced Fed :=
  match log.block with
  | none => ⟨⟨p, none⟩, [.logWithoutBlock]⟩
  | some block =>
    if log.removed then ⟨⟨p, none⟩, [.logOfAbandonedBlock]⟩
    else match p.latest? with
      | none => ⟨⟨p, none⟩, [.logBeforeSeeding]⟩
      | some latest =>
        if p.reflects latest block log.position? then ⟨⟨p, none⟩, [.logAlreadyReflected]⟩
        else p.advance latest block log

/-- Feeds logs to the pool in order; the events applied are beside the pool. -/
def onLogs (p : Pool) : List Log → Traced (Pool × List (Located BookEvent))
  | [] => pure (p, [])
  | log :: logs => do
    let fed ← p.onLog log
    let (last, applied) ← fed.pool.onLogs logs
    pure (last, fed.applied.toList ++ applied)

end Pool

end OfferBook
