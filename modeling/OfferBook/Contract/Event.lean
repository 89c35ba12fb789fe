import OfferBook.Log

/-!
# The events of the order book contract

The contract declares twelve events. Each has a topic that selects it, parameters that are stored
as further topics because they can be searched for, and parameters that are stored as words of
data. This module is the declaration: how many of each an event has, and where each parameter
stands. Writing an event (`topics`, `words`) and reading one (`ofWords?`) are the two directions
of the same table.

Reading is tolerant of what a chain cannot contain and strict about what it can: the number of
topics must be that of the event and the data must hold its words, but bytes after them, the high
bits of an address word and the exact value of a true Boolean do not matter.

Main results:

* `ofWords?_parameters`: the parameters an event is written with read back as that event;
* `read_encode`: so does the whole log, with any data after it.
-/

namespace OfferBook.Contract

/-- The kinds of event the contract declares. -/
inductive EventKind where
  | offerWrite
  | offerRetract
  | offerSuccess
  | offerSuccessWithPosthookData
  | offerFail
  | offerFailWithPosthookData
  | orderStart
  | orderComplete
  | setActive
  | setFee
  | credit
  | debit
  deriving DecidableEq

namespace EventKind

/-- All kinds, in the order of their declaration. -/
def all : List EventKind :=
  [offerWrite, offerRetract, offerSuccess, offerSuccessWithPosthookData, offerFail,
   offerFailWithPosthookData, orderStart, orderComplete, setActive, setFee, credit, debit]

theorem mem_all (k : EventKind) : k ∈ all := by cases k <;> decide

/-- The topic that selects the kind: the Keccak-256 hash of the event's name and types. -/
def topic : EventKind → Word
  | offerWrite => 0xbeb2dc87c4db0b489fe0485121086dfff34fcaac67b1120861b95f1b6649c97b
  | offerRetract => 0x69a8c809e58310d1995905640ab3d1e8efe2ca772c21432a693da69912a478f1
  | offerSuccess => 0x5575d7d7c01adb4eeee1e2ec4a63652fdf5086d71fd325fa1af8034796b89904
  | offerSuccessWithPosthookData =>
    0x88e7a2023de6638f80f184ea4126f2f532f046b745646d0b5ac8c205cc1b4874
  | offerFail => 0x8e83cc09450b5666c4b273f69ceff6631efac5291f291422fdc1e6e6c9223e19
  | offerFailWithPosthookData =>
    0x4f6fba9fcbdb2ad30462ad0e0e92fd280ffee4e24885661c7a7497802240008d
  | orderStart => 0x730e8e2cc287cd5296445ccef0dcf7f0695d8b3d620dcc9dd19c671a6f5663a5
  | orderComplete => 0xeab9f920eda38e2e10cfc76b3f85201b8bbe82fac69de4c4509001b66e5e33af
  | setActive => 0xae754ab4fca7273731e24a2db3350b4f89e22d7eff0819e2e3ab99aadca96de2
  | setFee => 0x139d6f58e9a127229667c8e3b36e88890a66cfc8ab1024ddc513e189e125b75b
  | credit => 0x1bbf55d483639f8103dc4e035af71a4fbdb16c80be740fa3eef81198acefa094
  | debit => 0x59c79d79be0fadf59fe689b6952b7ebe90201a3a1f00d4a31982377890bc6046

/-- How many parameters of the kind are stored as topics. -/
def indexedCount : EventKind → Nat
  | offerWrite | offerRetract | orderStart | orderComplete => 2
  | offerSuccess | offerSuccessWithPosthookData | offerFail | offerFailWithPosthookData
  | setActive => 3
  | setFee | credit | debit => 1

/-- How many parameters of the kind are stored as words of data. -/
def wordCount : EventKind → Nat
  | offerWrite | offerFailWithPosthookData => 5
  | offerFail => 4
  | offerSuccessWithPosthookData | orderStart => 3
  | offerRetract | offerSuccess | setActive => 2
  | orderComplete | setFee | credit | debit => 1

/-- The kind that a topic selects. -/
def ofTopic? (topic : Word) : Option EventKind := all.find? fun k => k.topic = topic

theorem ofTopic?_topic (k : EventKind) : ofTopic? k.topic = some k := by cases k <;> decide

end EventKind

/-- An event with all of its parameters. The word `market` is the hash of a market's key. -/
inductive Event where
  | offerWrite (market : Word) (maker : Address) (tick gives gasprice gasreq id : Word)
  | offerRetract (market : Word) (maker : Address) (id : Word) (deprovision : Bool)
  | offerSuccess (market : Word) (taker : Address) (id takerWants takerGives : Word)
  | offerSuccessWithPosthookData (market : Word) (taker : Address)
      (id takerWants takerGives posthookData : Word)
  | offerFail (market : Word) (taker : Address)
      (id takerWants takerGives penalty reason : Word)
  | offerFailWithPosthookData (market : Word) (taker : Address)
      (id takerWants takerGives penalty reason posthookData : Word)
  | orderStart (market : Word) (taker : Address) (maxTick fillVolume : Word) (fillWants : Bool)
  | orderComplete (market : Word) (taker : Address) (fee : Word)
  | setActive (market : Word) (outbound inbound : Address) (spacing : Word) (active : Bool)
  | setFee (market fee : Word)
  | credit (maker : Address) (amount : Word)
  | debit (maker : Address) (amount : Word)
  deriving DecidableEq

namespace Event

/-- The kind of an event. -/
def kind : Event → EventKind
  | offerWrite .. => .offerWrite
  | offerRetract .. => .offerRetract
  | offerSuccess .. => .offerSuccess
  | offerSuccessWithPosthookData .. => .offerSuccessWithPosthookData
  | offerFail .. => .offerFail
  | offerFailWithPosthookData .. => .offerFailWithPosthookData
  | orderStart .. => .orderStart
  | orderComplete .. => .orderComplete
  | setActive .. => .setActive
  | setFee .. => .setFee
  | credit .. => .credit
  | debit .. => .debit

/-- The parameters stored as topics, in order. -/
def indexed : Event → List Word
  | offerWrite market maker .. => [market, Word.ofAddress maker]
  | offerRetract market maker .. => [market, Word.ofAddress maker]
  | offerSuccess market taker id .. => [market, Word.ofAddress taker, id]
  | offerSuccessWithPosthookData market taker id .. => [market, Word.ofAddress taker, id]
  | offerFail market taker id .. => [market, Word.ofAddress taker, id]
  | offerFailWithPosthookData market taker id .. => [market, Word.ofAddress taker, id]
  | orderStart market taker .. => [market, Word.ofAddress taker]
  | orderComplete market taker _ => [market, Word.ofAddress taker]
  | setActive market outbound inbound .. =>
    [market, Word.ofAddress outbound, Word.ofAddress inbound]
  | setFee market _ => [market]
  | credit maker _ => [Word.ofAddress maker]
  | debit maker _ => [Word.ofAddress maker]

/-- The parameters stored as words of data, in order. -/
def words : Event → List Word
  | offerWrite _ _ tick gives gasprice gasreq id => [tick, gives, gasprice, gasreq, id]
  | offerRetract _ _ id deprovision => [id, Word.ofBool deprovision]
  | offerSuccess _ _ _ wants gives => [wants, gives]
  | offerSuccessWithPosthookData _ _ _ wants gives posthook => [wants, gives, posthook]
  | offerFail _ _ _ wants gives penalty reason => [wants, gives, penalty, reason]
  | offerFailWithPosthookData _ _ _ wants gives penalty reason posthook =>
    [wants, gives, penalty, reason, posthook]
  | orderStart _ _ maxTick volume fillWants => [maxTick, volume, Word.ofBool fillWants]
  | orderComplete _ _ fee => [fee]
  | setActive _ _ _ spacing active => [spacing, Word.ofBool active]
  | setFee _ fee => [fee]
  | credit _ amount => [amount]
  | debit _ amount => [amount]

/-- The topics of the event's log: the selecting one, then the indexed parameters. -/
def topics (e : Event) : List Word := e.kind.topic :: e.indexed

/-- The data of the event's log. -/
def data (e : Event) : Bytes := e.words.flatMap Word.bytes

/-- The event of a kind with the given indexed parameters and data words, if there are as many
as the kind has. -/
def ofWords? : EventKind → List Word → List Word → Option Event
  | .offerWrite, [market, maker], [tick, gives, gasprice, gasreq, id] =>
    some (.offerWrite market maker.address tick gives gasprice gasreq id)
  | .offerRetract, [market, maker], [id, deprovision] =>
    some (.offerRetract market maker.address id deprovision.truth)
  | .offerSuccess, [market, taker, id], [wants, gives] =>
    some (.offerSuccess market taker.address id wants gives)
  | .offerSuccessWithPosthookData, [market, taker, id], [wants, gives, posthook] =>
    some (.offerSuccessWithPosthookData market taker.address id wants gives posthook)
  | .offerFail, [market, taker, id], [wants, gives, penalty, reason] =>
    some (.offerFail market taker.address id wants gives penalty reason)
  | .offerFailWithPosthookData, [market, taker, id], [wants, gives, penalty, reason, posthook] =>
    some (.offerFailWithPosthookData market taker.address id wants gives penalty reason posthook)
  | .orderStart, [market, taker], [maxTick, volume, fillWants] =>
    some (.orderStart market taker.address maxTick volume fillWants.truth)
  | .orderComplete, [market, taker], [fee] => some (.orderComplete market taker.address fee)
  | .setActive, [market, outbound, inbound], [spacing, active] =>
    some (.setActive market outbound.address inbound.address spacing active.truth)
  | .setFee, [market], [fee] => some (.setFee market fee)
  | .credit, [maker], [amount] => some (.credit maker.address amount)
  | .debit, [maker], [amount] => some (.debit maker.address amount)
  | _, _, _ => none

theorem ofWords?_parameters (e : Event) : ofWords? e.kind e.indexed e.words = some e := by
  cases e <;> simp [kind, indexed, words, ofWords?, Word.address_ofAddress, Word.truth_ofBool]

theorem length_words (e : Event) : e.words.length = e.kind.wordCount := by
  cases e <;> rfl

/-- The event of a kind with the given indexed parameters and data. -/
def ofData? (kind : EventKind) (indexed : List Word) (data : Bytes) : Option Event :=
  (takeWords kind.wordCount data).bind fun (words, _) => ofWords? kind indexed words

end Event

/-- What a log's topics and data say. -/
inductive Reading where
  /-- There is no topic, so nothing selects an event. -/
  | anonymous
  /-- The first topic selects no declared event. -/
  | undeclared
  /-- The event that is selected does not fit the topics and the data. -/
  | undecodable
  /-- The log of a declared event. -/
  | event (e : Event)
  deriving DecidableEq

/-- Reads an event off the topics and the data of a log. -/
def read (topics : List Word) (data : Bytes) : Reading :=
  match topics with
  | [] => .anonymous
  | topic :: indexed =>
    match EventKind.ofTopic? topic with
    | none => .undeclared
    | some kind =>
      match Event.ofData? kind indexed data with
      | none => .undecodable
      | some e => .event e

theorem read_encode (e : Event) (rest : Bytes) : read e.topics (e.data ++ rest) = .event e := by
  have h : Event.ofData? e.kind e.indexed (e.data ++ rest) = some e := by
    rw [Event.ofData?, ← Event.length_words e, Event.data, takeWords_append]
    exact Event.ofWords?_parameters e
  simp [read, Event.topics, EventKind.ofTopic?_topic, h]

end OfferBook.Contract
