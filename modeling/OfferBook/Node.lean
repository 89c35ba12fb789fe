import OfferBook.Contract.Aggregate
import OfferBook.Deployment
import OfferBook.Feed
import OfferBook.Reader.Basic

/-!
# Nodes

A node as far as this library talks to it: which chain it serves, which block is the head of the
chain, what an aggregated call returns, and which blocks it knows with which logs. A block may be
held back or refused when it is asked for the first times. A node is a value, so a run against it
can be repeated; a real one is recorded as such a value. Whether a refused question is asked again
is not for the node to say, but for the client that it is asked through.
-/

namespace OfferBook

/-- How a node answers the question for a block at one poll. -/
inductive BlockReply where
  | asKnown
  | notYet
  | fails (cause : TransportFault)
  deriving DecidableEq

/-- How a node answers one poll of a block it knows. -/
structure PollReply where
  block : BlockReply
  logsFail : Option TransportFault
  deriving DecidableEq

/-- A block a node knows. The replies are those to the first questions; later ones are answered as
known. -/
structure KnownBlock where
  number : Nat
  timestamp : Nat
  logs : List Log
  replies : List PollReply
  deriving DecidableEq

/-- An aggregated call as a node receives it. -/
structure NodeCall where
  target : Address
  data : Bytes
  block : Nat
  deriving DecidableEq

/-- A node. -/
structure Node where
  chainId : Except TransportFault Nat
  head : Except TransportFault Nat
  /-- What an aggregated call returns. -/
  call : NodeCall → Except TransportFault Bytes
  blocks : List KnownBlock

namespace Node

/-- The answer about a block the node does not know. -/
def noBlock : TransportFault := .reply (-32001) "no block"

/-- The block of a number. -/
def block? (n : Node) (number : Nat) : Option KnownBlock :=
  n.blocks.find? fun b => b.number = number

/-- The logs of a contract in a range of blocks, as far as the node knows the blocks. -/
def logs (n : Node) (filter : LogFilter) : List Log :=
  let numbers := List.range' filter.fromBlock (filter.toBlock + 1 - filter.fromBlock)
  (numbers.filterMap n.block?).flatMap fun b =>
    b.logs.filter fun log => log.address = filter.contract

/-- How the node answers the questions of a poll for a block that were asked `earlier` times before,
if it knows the block. -/
def reply? (n : Node) (number earlier : Nat) : Option (KnownBlock × PollReply) :=
  (n.block? number).map fun b => (b, b.replies.getD earlier ⟨.asKnown, none⟩)

/-- The answer to the question for a block. -/
def blockAnswer (n : Node) (number earlier : Nat) : Except TransportFault (Option Nat) :=
  match n.reply? number earlier with
  | none => .error noBlock
  | some (b, reply) =>
    match reply.block with
    | .asKnown => .ok (some b.timestamp)
    | .notYet => .ok none
    | .fails cause => .error cause

/-- The answer to the question for logs. -/
def logsAnswer (n : Node) (asked : Questions) (earlier : Nat) : Except TransportFault (List Log) :=
  match (n.reply? asked.block earlier).bind fun known => known.2.logsFail with
  | some cause => .error cause
  | none => .ok (n.logs asked.logs)

/-- The node's answers to the questions of a poll, either of them asked `earlier` times before. -/
def poll (n : Node) (asked : Questions) (earlier : Nat) : PollAnswer :=
  ⟨n.blockAnswer asked.block earlier, n.logsAnswer asked earlier⟩

/-- The node's answers to a feed of a contract's logs that asks each question of a poll once. -/
def answers (n : Node) (contract : Address) (f : Feed) : PollAnswer :=
  n.poll (f.questions contract) (f.polled.count f.next)

/-- So many polls of any block settle it. -/
def patience (n : Node) : Nat :=
  (n.blocks.map fun b => b.replies.length).foldl max 0 + 1

/-- Pulls the next item of a feed of a contract's logs from the node. -/
def pull (n : Node) (contract : Address) (f : Feed) : Traced (Option Pulled) :=
  f.pull (n.answers contract) n.patience

/-- A batch as the node receives it: a call of the aggregator, as of the batch's block. -/
def callOf (d : Deployment) (calls : List Contract.Call) (block : Nat) : NodeCall :=
  ⟨d.aggregator, Contract.encodeBatch calls, block⟩

/-- The results an aggregated call returns. A call that fails, or returns something else than
results, is a fault of the contract. -/
def results (answer : Except TransportFault Bytes) : Except Fault (List Contract.CallResult) :=
  match answer with
  | .error _ => .error .contract
  | .ok data =>
    match Contract.decodeResults? data with
    | some results => .ok results
    | none => .error .contract

/-- The node as a reader: batches are made by the aggregator. -/
def reader (n : Node) (d : Deployment) : Reader where
  head := n.head.mapError Fault.transport
  batch := fun calls block => results (n.call (callOf d calls block))

/-- The calls a node receives for what is asked of it as a reader. -/
def callsFor (d : Deployment) (requests : List Request) : List NodeCall :=
  requests.filterMap fun
    | .head => none
    | .batch calls block => some (callOf d calls block)

end Node

end OfferBook
