import OfferBook.BookEvent
import OfferBook.Notice

/-!
# Routing logs to a market

All markets of the contract share one stream of logs. Routing a log to one market has four
outcomes: an event to apply, an event of another market, an event no book reacts to, or a log
that cannot be read. A log is read before its market is looked at, so a malformed event is
malformed for every market.
-/

namespace OfferBook

/-- Why a log concerns no book. -/
inductive Unhandled where
  | anonymous | undeclared | unused
  deriving DecidableEq

/-- Why a log of a declared event cannot be read. -/
inductive Malformed where
  | shape
  | tick (tick : Int)
  deriving DecidableEq

/-- What a log means to one market. -/
inductive Route where
  /-- An event of the market. -/
  | apply (event : BookEvent)
  /-- An event of another market. -/
  | foreign
  /-- Nothing a book reacts to. -/
  | unhandled (why : Unhandled)
  /-- Nothing that can be read. -/
  | malformed (why : Malformed)
  deriving DecidableEq

namespace Route

/-- The route of an event of the contract to the market with the given hash. -/
def ofEvent (market : Word) (event : Contract.Event) : Route :=
  match BookEvent.ofContract event with
  | .error out => .malformed (.tick out.tick)
  | .ok none => .unhandled .unused
  | .ok (some (tag, e)) => if tag = market then .apply e else .foreign

/-- The route of a log to the market with the given hash. -/
def ofLog (market : Word) (log : Log) : Route :=
  match Contract.read log.topics log.data with
  | .anonymous => .unhandled .anonymous
  | .undeclared => .unhandled .undeclared
  | .undecodable => .malformed .shape
  | .event e => ofEvent market e

/-- What there is to remark on a route. -/
def notices : Route → List Notice
  | apply _ | foreign => []
  | unhandled .anonymous => [.anonymousLog]
  | unhandled .undeclared => [.undeclaredEvent]
  | unhandled .unused => [.unusedEvent]
  | malformed .shape => [.undecodableLog]
  | malformed (.tick _) => [.undecodableEvent]

end Route

end OfferBook
