import OfferBook.Fault
import OfferBook.Instant
import OfferBook.Log
import OfferBook.Notice

/-!
# The feed of blocks

The feed turns a node that answers questions into a continuous sequence of blocks with their logs.
It polls one block at a time, asking for the block and for its logs together. If both are
answered and the block is there, that is the next item, and the feed goes on to the next block. If
the block is not there yet, the feed waits and polls it again; some nodes list no logs instead of
failing for a block that does not exist, so it is the block that tells. If either question fails,
the failure is an item, and the same block is polled again for the next one.

Logs of abandoned blocks are dropped and the others are put in the order of their indices, those
without one first.

`pull` is what a consumer calls: it polls until there is an item. `poll` is one poll as the node and
the clock see it: the two questions, and behind them an item or a sleep.
-/

namespace OfferBook

/-- A block's logs, with the instant they bring a book up to. -/
structure Batch where
  instant : Instant
  logs : List Log
  deriving DecidableEq

/-- The logs of a contract in a range of blocks, both ends included, as a node is asked for them. -/
structure LogFilter where
  contract : Address
  fromBlock : Nat
  toBlock : Nat
  deriving DecidableEq

/-- The two questions of a poll, asked at once: for a block, and for logs. -/
structure Questions where
  block : Nat
  logs : LogFilter
  deriving DecidableEq

/-- A node's answers to the two questions of a poll: the timestamp of the block, if it exists, and
the logs. -/
structure PollAnswer where
  block : Except TransportFault (Option Nat)
  logs : Except TransportFault (List Log)

/-- What a poll comes to. -/
inductive PollOutcome where
  | batch (b : Batch)
  | unavailable
  | failed (f : Fault)
  deriving DecidableEq

/-- The next block to poll, and the blocks polled so far, the last one first. -/
structure Feed where
  next : Nat
  polled : List Nat
  deriving DecidableEq

/-- An item pulled from a feed, and how often the feed waited for it. -/
structure Pulled where
  feed : Feed
  waits : Nat
  item : Except Fault Batch

/-- What a feed does behind a poll: it yields an item, or it sleeps, for so many milliseconds,
before the next poll. -/
inductive Sequel where
  | yields (item : Except Fault Batch)
  | sleeps (interval : Nat)

/-- A poll as it is seen from outside: what was asked and answered, and what followed. -/
structure Poll where
  asked : Questions
  answer : PollAnswer
  sequel : Sequel

/-- The batch that a poll yielded, if it yielded one. -/
def Poll.batch? (p : Poll) : Option Batch :=
  match p.sequel with
  | .yields (.ok b) => some b
  | _ => none

namespace Feed

/-- A feed that starts with a block. -/
def start (block : Nat) : Feed := ⟨block, []⟩

/-- What the next poll asks: for the next block, and for the logs of the contract in it. -/
def questions (contract : Address) (f : Feed) : Questions := ⟨f.next, contract, f.next, f.next⟩

/-- Whether the first index may stand before the second; a missing one stands first. -/
def indexLe : Option Nat → Option Nat → Bool
  | none, _ => true
  | some _, none => false
  | some a, some b => a ≤ b

/-- The logs that count, in the order in which they were emitted. -/
def canonical (logs : List Log) : Traced (List Log) :=
  ⟨(logs.filter fun log => !log.removed).mergeSort fun a b => indexLe a.index b.index,
    (logs.filter Log.removed).map fun _ => .droppedRemovedLog⟩

/-- What the answers about a block come to. -/
def outcome (block : Nat) (answer : PollAnswer) : Traced PollOutcome :=
  match answer.block, answer.logs with
  | .error cause, _ => pure (.failed (.transport cause))
  | .ok _, .error cause => pure (.failed (.transport cause))
  | .ok none, .ok _ => pure .unavailable
  | .ok (some timestamp), .ok logs => do
    let logs ← canonical logs
    pure (.batch ⟨⟨block, timestamp⟩, logs⟩)

/-- The feed after one poll, and the item if there is one. -/
def step (f : Feed) (answer : PollAnswer) : Traced (Feed × Option (Except Fault Batch)) := do
  let polled := f.next :: f.polled
  match ← outcome f.next answer with
  | .batch b => pure (⟨next64 f.next, polled⟩, some (.ok b))
  | .failed fault => pure (⟨f.next, polled⟩, some (.error fault))
  | .unavailable => pure (⟨f.next, polled⟩, none)

/-- Pulls the next item from a node, polling at most `patience` times; nothing if the block is not
there by then. The node's answers are given by the feed as it is before the poll. -/
def pull (answers : Feed → PollAnswer) : Nat → Feed → Traced (Option Pulled)
  | 0, _ => pure none
  | patience + 1, f => do
    match ← f.step (answers f) with
    | (f, some item) => pure (some ⟨f, 0, item⟩)
    | (f, none) => do
      let pulled ← pull answers patience f
      pure (pulled.map fun p => { p with waits := p.waits + 1 })

/-- A poll of the next block, by a feed that sleeps for the given time if the block is not there. -/
def poll (contract : Address) (interval : Nat) (answers : Feed → PollAnswer) (f : Feed) : Poll :=
  ⟨f.questions contract, answers f,
    match (f.step (answers f)).value.2 with
    | some item => .yields item
    | none => .sleeps interval⟩

end Feed

end OfferBook
