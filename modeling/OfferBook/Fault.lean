import OfferBook.Market

/-!
# Faults

What can go wrong between the chain and a book, by cause. Every fault but one is transient: it may
be gone when the same request is made again. The exception is a market the reader contract does
not know, which stays unknown. The wording of a fault is in `message?`; the words of a contract
fault and of undecodable return data are the peer's own and are not kept.
-/

namespace OfferBook

/-- Why a request got no answer. -/
inductive TransportFault where
  /-- The node answered with an error. -/
  | reply (code : Int) (message : String)
  /-- No answer of the node came through. -/
  | down (reason : String)
  deriving DecidableEq

/-- The words of a transport fault. -/
def TransportFault.message : TransportFault → String
  | .reply code message => s!"server returned an error response: error code {code}: {message}"
  | .down reason => reason

/-- The words of a transport fault as a report to a person has them: a fault that is not an answer
is told with its cause, which has the same words. -/
def TransportFault.report : TransportFault → String
  | .reply code message => (reply code message).message
  | .down reason => s!"{reason}: {reason}"

/-- Why an answer that was read makes no book. -/
inductive DecodeFault where
  | emptyBatch
  | misaligned (ids offers details : Nat)
  | tickOutOfRange (tick : Int)
  | other (reason : String)
  deriving DecidableEq

/-- The words of a decoding fault. -/
def DecodeFault.message : DecodeFault → String
  | .emptyBatch => "empty batch response"
  | .misaligned ids offers details =>
    s!"offer list of misaligned length: {ids} ids, {offers} offers, {details} details"
  | .tickOutOfRange tick => s!"offer tick {tick}: output of range integer conversion attempted"
  | .other reason => reason

/-- What can go wrong on the way to a book. -/
inductive Fault where
  | transport (cause : TransportFault)
  | contract
  | undecodable
  | invalidRequest (reason : String)
  | decode (cause : DecodeFault)
  | marketNotFound (market : Market)
  | notSeeded
  deriving DecidableEq

namespace Fault

/-- Whether the fault is still there when the same request is made again. -/
def isPermanent : Fault → Bool
  | marketNotFound _ => true
  | _ => false

theorem isPermanent_iff {f : Fault} : f.isPermanent = true ↔ ∃ m, f = marketNotFound m := by
  cases f <;> simp [isPermanent]

/-- The words of a fault, where they are this library's. -/
def message? : Fault → Option String
  | transport cause => some s!"transport error: {cause.message}"
  | contract => none
  | undecodable => none
  | invalidRequest reason => some s!"invalid request: {reason}"
  | decode cause => some s!"decode error: {cause.message}"
  | marketNotFound market => some s!"market does not exist: {market.text}"
  | notSeeded => some "pool is not initialized"

/-- The words of a fault followed by those of its cause, as a report to a person has them. -/
def report : Fault → String
  | transport cause => s!"transport error: {cause.message}: {cause.report}"
  | f => f.message?.getD ""

end Fault

end OfferBook
