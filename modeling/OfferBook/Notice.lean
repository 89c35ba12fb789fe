/-!
# Notices

What the library has to say about its work is a value: every remark is a constructor here, with
one level and one text. An operation that may remark on something returns a `Traced` result, the
result beside the notices in the order they arose, so a caller decides what becomes of them and a
statement about the results need not mention them.

Main results:

* `value_bind`, `notices_bind`: a composed operation computes what its parts compute, and its
  notices are those of its parts in order.
-/

namespace OfferBook

/-- How much attention a notice asks for. -/
inductive Level where
  | trace | debug | info | warn | error
  deriving DecidableEq

/-- The name under which a level is listed. -/
def Level.text : Level → String
  | .trace => "TRACE"
  | .debug => "DEBUG"
  | .info => "INFO"
  | .warn => "WARN"
  | .error => "ERROR"

/-- A remark on the work done. -/
inductive Notice where
  | anonymousLog
  | undeclaredEvent
  | undecodableLog
  | unusedEvent
  | undecodableEvent
  | completeWithoutOrder
  | successWithoutOrder
  | failWithoutOrder
  | retractOfAbsentOffer
  | correctedHistory
  | truncatedBook
  | fetchFailed
  | logWithoutBlock
  | logOfAbandonedBlock
  | logBeforeSeeding
  | logAlreadyReflected
  | marketKnownMissing
  | poolCreated
  | headUnresolved
  | poolSeeded
  | marketMissing
  | seedingFailed
  | logOfOtherContract
  | droppedRemovedLog
  | bookFollowed
  deriving DecidableEq

namespace Notice

/-- The level of a notice. -/
def level : Notice → Level
  | marketKnownMissing | poolCreated => .trace
  | anonymousLog | undeclaredEvent | unusedEvent | failWithoutOrder | retractOfAbsentOffer
  | correctedHistory | logBeforeSeeding | logAlreadyReflected | poolSeeded | logOfOtherContract
  | droppedRemovedLog => .debug
  | bookFollowed => .info
  | undecodableLog | undecodableEvent | completeWithoutOrder | successWithoutOrder
  | truncatedBook | logWithoutBlock | logOfAbandonedBlock | headUnresolved | marketMissing
  | seedingFailed => .warn
  | fetchFailed => .error

/-- The words of a notice. -/
def message : Notice → String
  | anonymousLog => "anonymous log, ignoring"
  | undeclaredEvent => "no binding for event"
  | undecodableLog => "failed to decode log, ignoring"
  | unusedEvent => "no handler for event"
  | undecodableEvent => "failed to decode event, ignoring"
  | completeWithoutOrder => "order completed with no order open, ignoring"
  | successWithoutOrder => "offer success with no order open, ignoring"
  | failWithoutOrder => "offer fail with no order open"
  | retractOfAbsentOffer => "retracted offer is not in the book"
  | correctedHistory => "correcting snapshot history"
  | truncatedBook => "offer list does not fit a single page, book is truncated"
  | fetchFailed => "failed to fetch pool state"
  | logWithoutBlock => "log without block number, ignoring"
  | logOfAbandonedBlock => "log removed by reorg, ignoring"
  | logBeforeSeeding => "pool not initialized, ignoring log"
  | logAlreadyReflected => "log already reflected in state, ignoring"
  | marketKnownMissing => "market is known not to exist"
  | poolCreated => "creating pool"
  | headUnresolved => "failed to resolve chain head"
  | poolSeeded => "pool initialized"
  | marketMissing => "market does not exist"
  | seedingFailed => "failed to initialize pool"
  | logOfOtherContract => "log of another contract, ignoring"
  | droppedRemovedLog => "dropping removed log"
  | bookFollowed => "pool initialized"

/-- A notice as it is listed: its level and its words. -/
def text (n : Notice) : String := n.level.text ++ " " ++ n.message

end Notice

/-- A result with the notices that arose on the way to it. -/
structure Traced (α : Type) where
  value : α
  notices : List Notice
  deriving DecidableEq

namespace Traced

variable {α β : Type}

/-- A result nothing has to be said about. -/
protected def pure (a : α) : Traced α := ⟨a, []⟩

/-- One operation after another, with the notices of both. -/
protected def bind (x : Traced α) (f : α → Traced β) : Traced β :=
  ⟨(f x.value).value, x.notices ++ (f x.value).notices⟩

instance : Monad Traced where
  pure := Traced.pure
  bind := Traced.bind

/-- The notice alone. -/
def note (n : Notice) : Traced Unit := ⟨(), [n]⟩

/-- The notice, if the condition holds. -/
def noteIf (c : Bool) (n : Notice) : Traced Unit := ⟨(), if c then [n] else []⟩

@[simp] theorem value_pure (a : α) : (pure a : Traced α).value = a := rfl

@[simp] theorem notices_pure (a : α) : (pure a : Traced α).notices = [] := rfl

@[simp] theorem value_bind (x : Traced α) (f : α → Traced β) :
    (x >>= f).value = (f x.value).value := rfl

@[simp] theorem notices_bind (x : Traced α) (f : α → Traced β) :
    (x >>= f).notices = x.notices ++ (f x.value).notices := rfl

end Traced

end OfferBook
