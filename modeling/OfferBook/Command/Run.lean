import OfferBook.Client
import OfferBook.Command.Follow
import OfferBook.Command.Options
import OfferBook.Registry

/-!
# Running a command

A command fetches the book of a market from a node at a block, or at the head of the chain, and
then shows it, lists the events of the following blocks, or shows the book live. What a run comes
to is a value: what was written, what was asked of the node, the remarks on the way, and the fault
that ended the run, if one did.
-/

namespace OfferBook.Command

/-- What a run meets: the node, the client through which it is asked, and whether the run was
interrupted by the time an item was pulled, told by the feed as it is then. -/
structure Session where
  node : Node
  client : Client
  interrupted : Feed → Bool

/-- A session that nobody interrupts, with the usual client. -/
def Session.undisturbed (node : Node) : Session := ⟨node, .usual, fun _ => false⟩

/-- Why a run ended early. -/
inductive RunFault where
  | missingTokens
  | chainUnresolved (cause : TransportFault)
  | headUnresolved (cause : TransportFault)
  | marketMissing (destination source : Address)
  | notFetched (market : Market) (block : Nat)
  | chain (fault : Fault)
  deriving DecidableEq

/-- The words of a run's fault. -/
def RunFault.message : RunFault → String
  | .missingTokens => "market tokens should be provided, see \x60--src\x60 and \x60--dest\x60"
  | .chainUnresolved cause => cause.report
  | .headUnresolved cause => s!"fetching latest block number: {cause.report}"
  | .marketMissing destination source =>
    s!"market {destination.text}/{source.text} does not exist"
  | .notFetched market block => s!"failed to fetch book of {market.text} at block {block}"
  | .chain fault => fault.report

/-- What a run comes to. -/
structure Outcome where
  written : List Piece
  calls : List NodeCall
  /-- The blocks that were polled, in order. -/
  polled : List Nat
  fault : Option RunFault
  /-- Whether the run was given up before it ended. -/
  givenUp : Bool

/-- The key of the exchange whose markets are followed. -/
def dexKey : String := "mangrove"

/-- The order book whose logs a run follows. -/
def orderBookFor (o : Options) : Address := o.orderBook.getD Deployment.arbitrum.orderBook

/-- The contracts a run talks to. -/
def deploymentFor (o : Options) (chainId : Nat) : Deployment where
  chainId
  orderBook := orderBookFor o
  reader := o.reader.getD Deployment.arbitrum.reader
  aggregator := o.aggregator.getD Deployment.arbitrum.aggregator

/-- The tuning of a run's pool. -/
def configFor (o : Options) : PoolConfig :=
  (PoolConfig.default.withPageSize o.pageSize).withRetained o.retained

/-- The block a run starts at. -/
def startBlock (o : Options) (node : Node) : Except TransportFault Nat :=
  match o.block with
  | some block => .ok block
  | none => node.head

/-- A display's pieces below a heading: the book in full. -/
def showBook (colored : Bool) (title : String) (book : Book) : List Piece :=
  [.text (heading colored '#' title ++ "\n\n"), .text (book.fullView colored none ++ "\n")]

/-- The snapshot command: the book as it was fetched. -/
def snapshot (colored : Bool) (pool : Pool) : List Piece :=
  .text (heading colored '#' s!" Mangrove Book {pool.market.text} " ++ "\n\n") ::
    (pool.latest?.map fun book => Piece.text (book.fullView colored none ++ "\n")).toList

/-- A session as a source of blocks. So many items settle a run: every block the node knows, and the
failure behind the last. -/
def sourceOf (contract : Address) (s : Session) : Source :=
  ⟨s.client.answers s.node contract, s.node.patience, s.node.blocks.length + 1, s.interrupted⟩

/-- What the trace command writes behind the last block: the book as it is then. A fault leaves no
time for it. -/
def finalBook (colored : Bool) (ending : Ending) (pool : Pool) : List Piece :=
  match ending, pool.latest? with
  | .complete, some last => .text "\n" :: showBook colored " Final Book " last
  | _, _ => []

/-- The trace command: the book, the events of the following blocks, the book after them. -/
def trace (colored : Bool) (source : Source) (numBlocks : Option Nat) (pool : Pool)
    (initial : Book) : Traced (Followed Nat) := do
  let start := Follower.mk pool (Feed.start (next64 initial.block)) 0
  let followed ← follow source (Listing.display colored) source.limit numBlocks start
  pure { followed with
    written := showBook colored " Initial Book " initial ++ followed.written ++
      finalBook colored followed.ending followed.follower.pool }

/-- What the live command writes behind the last block. A fault leaves no time for it. -/
def leaveScreen : Ending → List Piece
  | .complete => [.screen .leaveAlternate]
  | .failed _ | .givenUp => []

/-- The live command: the book behind every following block, on a screen of its own. -/
def live (colored : Bool) (source : Source) (depth numBlocks : Option Nat) (pool : Pool)
    (initial : Book) : Traced (Followed Unit) := do
  let start := Follower.mk pool (Feed.start (next64 initial.block)) ()
  let followed ← follow source (liveDisplay colored depth) source.limit numBlocks start
  pure { followed with
    written := [.screen .enterAlternate, .screen .clear, .screen .home] ++ followed.written ++
      leaveScreen followed.ending }

/-- An outcome that adds what following came to. -/
def Outcome.ofFollowed {σ : Type} (calls : List NodeCall) (f : Followed σ) : Outcome :=
  ⟨f.written, calls, f.follower.feed.polled.reverse, f.ending.fault?.map .chain,
    f.ending = .givenUp⟩

/-- An outcome of a run that a fault ended before anything was written. -/
def Outcome.failed (calls : List NodeCall) (fault : RunFault) : Outcome :=
  ⟨[], calls, [], some fault, false⟩

/-- Runs a command on a pool that is ready. -/
def runOn (o : Options) (colored : Bool) (s : Session) (calls : List NodeCall) (pool : Pool) :
    Traced Outcome :=
  match o.action, pool.latest? with
  | .snapshot, _ => pure ⟨snapshot colored pool, calls, [], none, false⟩
  | .trace, some initial => do
    let followed ← trace colored (sourceOf (orderBookFor o) s) o.numBlocks pool initial
    pure (.ofFollowed calls followed)
  | .live depth, some initial => do
    let shown := if depth = 0 then none else some depth
    let followed ← live colored (sourceOf (orderBookFor o) s) shown o.numBlocks pool initial
    pure (.ofFollowed calls followed)
  | _, none => pure (.failed calls (.chain .notSeeded))

/-- Runs a command for a market on a chain, from a block on. -/
def runFrom (o : Options) (colored : Bool) (s : Session) (source destination : Address)
    (chainId block : Nat) : Traced Outcome := do
  let d := deploymentFor o chainId
  let market := Market.ofTrade source destination o.tickSpacing
  let served ← (Registry.new dexKey d (configFor o)).getPool .empty
    ((s.client.facing s.node).reader d) market (some block)
  let calls := s.client.received s.node (Node.callsFor d served.requests)
  match served.pool with
  | none => pure (.failed calls (.marketMissing destination source))
  | some pool =>
    if pool.isReady then do
      Traced.note .bookFollowed
      runOn o colored s calls pool
    else pure (.failed calls (.notFetched pool.market block))

/-- Runs a command. -/
def run (o : Options) (colored : Bool) (s : Session) : Traced Outcome :=
  let node := s.client.facing s.node
  match o.source, o.destination with
  | some source, some destination =>
    match node.chainId, startBlock o node with
    | .ok chainId, .ok block => runFrom o colored s source destination chainId block
    | .error cause, _ => pure (.failed [] (.chainUnresolved cause))
    | .ok _, .error cause => pure (.failed [] (.headUnresolved cause))
  | _, _ => pure (.failed [] .missingTokens)

end OfferBook.Command
