import OfferBook.Book.View
import OfferBook.Node
import OfferBook.Pool

/-!
# Following a market

The commands that follow a market pull one block after another from the node, feed its logs to the
pool and show what came of it. Whether the run was interrupted, and whether as many blocks came as
were wanted, is looked at after an item was pulled: the item that follows the last block wanted is
pulled as well and then dropped.

Two displays are defined by what they keep from block to block and what they write for one. The
listing of events indents an event by the orders that are open around it. The live view clears
the screen for every block.
-/

namespace OfferBook.Command

/-- Where blocks are pulled from: how polls are answered, what is asked before a run is given up, so
many polls for one item and so many items, and whether the run was interrupted by the time an item
was pulled, told by the feed as it is then. A node that is followed in earnest is never given up; a
recorded one has told all it knows by then. -/
structure Source where
  answers : Feed → PollAnswer
  patience : Nat
  limit : Nat
  interrupted : Feed → Bool

/-- Whether a run ends behind an item, whatever the item is: it was interrupted, or no block is
left. -/
def Source.stops (s : Source) (feed : Feed) (left : Option Nat) : Bool :=
  s.interrupted feed || left = some 0

/-- A pool, the feed it is fed from, and what a display keeps. -/
structure Follower (σ : Type) where
  pool : Pool
  feed : Feed
  display : σ

/-- How following a market ends. -/
inductive Ending where
  /-- As many blocks were followed as were wanted, or the run was interrupted. -/
  | complete
  /-- The node failed. -/
  | failed (fault : Fault)
  /-- The run was given up before it ended. -/
  | givenUp
  deriving DecidableEq

/-- The fault that ended a run, if it was one. -/
def Ending.fault? : Ending → Option Fault
  | failed fault => some fault
  | complete | givenUp => none

/-- What following comes to: where it stands at the end, what was written, and how it ended. -/
structure Followed (σ : Type) where
  follower : Follower σ
  written : List Piece
  ending : Ending

/-- A display: what it writes for a block whose logs were fed to a pool, given the pool after that
and the events applied, and what it keeps. -/
abbrev Display (σ : Type) := σ → Pool → Batch → List (Located BookEvent) → List Piece × σ

/-- Follows a market for so many blocks, or for as long as it can if no number is given, until the
node fails or the run is interrupted; at most `items` items are pulled. -/
def follow {σ : Type} (source : Source) (display : Display σ) :
    (items : Nat) → (left : Option Nat) → Follower σ → Traced (Followed σ)
  | 0, _, f => pure ⟨f, [], .givenUp⟩
  | items + 1, left, f => do
    match ← f.feed.pull source.answers source.patience with
    | none => pure ⟨f, [], .givenUp⟩
    | some pulled =>
      let f := { f with feed := pulled.feed }
      if source.stops f.feed left then pure ⟨f, [], .complete⟩
      else match pulled.item with
        | .error fault => pure ⟨f, [], .failed fault⟩
        | .ok batch => do
          let (pool, applied) ← f.pool.onLogs batch.logs
          let (written, kept) := display f.display pool batch applied
          let rest ← follow source display items (left.map prev64) ⟨pool, f.feed, kept⟩
          pure { rest with written := written ++ rest.written }

/-! ## The listing of events -/

/-- A heading in the middle of a full line of marks. -/
def heading (colored : Bool) (mark : Char) (title : String) : String :=
  Ink.boldPurple.paint colored (centred mark 144 title)

/-- The colour in which an event is listed. -/
def inkOf : BookEvent → Ink
  | .orderStart | .orderComplete => .cyan
  | .offerWrite .. => .brightGreen
  | _ => .brightCyan

/-- What the listing keeps within a block: how many orders are open as far as it has seen, and the
transaction of the event before. -/
structure Listing where
  depth : Nat
  lastTx : Option Nat
  deriving DecidableEq

namespace Listing

/-- The depth at which an event is listed: a completed order stands at the depth at which it
started. -/
def shownDepth (l : Listing) : BookEvent → Nat
  | .orderComplete => l.depth - 1
  | _ => l.depth

/-- The depth behind an event. -/
def depthAfter (l : Listing) : BookEvent → Nat
  | .orderStart => l.depth + 1
  | .orderComplete => l.depth - 1
  | _ => l.depth

/-- Whether an event opens the part of a later transaction than the one before. -/
def opensTransaction (l : Listing) (e : Located BookEvent) : Bool :=
  match l.lastTx with
  | none => true
  | some tx => tx < e.txIndex

/-- The heading of a transaction's part. -/
def transactionHeading (colored : Bool) (e : Located BookEvent) : Piece :=
  let title := s!"**** Tx #{e.txIndex} ({hexText e.tx.bytes})"
  .text ("\n" ++ Ink.brightBlue.paint colored title ++ "\n\n")

/-- The line of an event at a depth. -/
def eventLine (colored : Bool) (depth : Nat) (e : Located BookEvent) : Piece :=
  let indent := String.join (List.replicate depth "   ↳ ")
  .line ((inkOf e.event).paint colored s!"  {indent}{e.logIndex}: {e.event.text}")

/-- What is written for one event. -/
def showEvent (colored : Bool) (l : Listing) (e : Located BookEvent) : List Piece :=
  (if l.opensTransaction e then [transactionHeading colored e] else []) ++
    [eventLine colored (l.shownDepth e.event) e]

/-- What is kept behind one event. -/
def after (l : Listing) (e : Located BookEvent) : Listing :=
  ⟨l.depthAfter e.event, some e.txIndex⟩

/-- What is written for events in turn, and what is kept behind them. -/
def showEvents (colored : Bool) : Listing → List (Located BookEvent) → List Piece × Listing
  | l, [] => ([], l)
  | l, e :: es =>
    let (written, last) := showEvents colored (l.after e) es
    (l.showEvent colored e ++ written, last)

/-- The listing of a block. -/
def display (colored : Bool) : Display Nat := fun depth _ batch applied =>
  let title := .text ("\n\n" ++ heading colored '=' " Block Events " ++ "\n\n")
  let instant := .line (Ink.boldPurple.paint colored batch.instant.text)
  let (written, last) := showEvents colored ⟨depth, none⟩ applied
  (title :: instant :: written, last.depth)

end Listing

/-! ## The live view -/

/-- The live view of the book behind a block. -/
def liveDisplay (colored : Bool) (depth : Option Nat) : Display Unit :=
  fun _ pool batch applied =>
    let title :=
      s!"{pool.market.text} :: {batch.instant.text} :: {applied.length} events applied\n"
    let view := match pool.latest? with
      | some book => [.text (book.compactView depth colored none)]
      | none => []
    ([.screen .clear, .screen .home, .text title] ++ view, ())

end OfferBook.Command
