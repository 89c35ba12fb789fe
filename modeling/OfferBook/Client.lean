import OfferBook.Node

/-!
# Clients

A command does not ask a node itself but through a client, which takes some errors for a reason to
ask again: the node was asked too much, or it is one of several behind one name and does not know
yet what another one has announced. Which errors these are, and what is reported when a question was
asked again in vain, is up to the client, so a `Client` is any such rule with a bound.

The two questions of a poll are asked side by side. When one of them has failed for good the other
is not asked again.

How long a client waits before it asks again, and whether it holds questions back so that the node
is not asked too much, is a matter of time alone and is not told here.
-/

namespace OfferBook

/-- What a client does with the errors of a node. -/
structure Client where
  /-- Whether a question that was answered with an error is asked again. -/
  asksAgain : TransportFault → Bool
  /-- How often a question is asked again at most. -/
  limit : Nat
  /-- What is reported of a question that was asked again in vain, by its last error. -/
  exhausted : TransportFault → TransportFault

/-- What became of a question: how often it was asked, and the answer in the end. -/
structure Asked (α : Type) where
  times : Nat
  answer : Except TransportFault α

/-- How often the two questions about a block were asked. -/
structure Sent where
  block : Nat
  logs : Nat
  deriving DecidableEq

namespace Client

variable {α : Type} (c : Client)

/-- Whether a question with this answer is asked again. -/
def rejects : Except TransportFault α → Bool
  | .error cause => c.asksAgain cause
  | .ok _ => false

/-- Asks a question, and again at most `left` times. The answers are given by how often the question
was asked before. -/
def ask (answers : Nat → Except TransportFault α) : (left earlier : Nat) → Asked α
  | 0, earlier =>
    ⟨1, if c.rejects (answers earlier) then (answers earlier).mapError c.exhausted
      else answers earlier⟩
  | left + 1, earlier =>
    if c.rejects (answers earlier) then
      let later := ask answers left (earlier + 1)
      ⟨later.times + 1, later.answer⟩
    else ⟨1, answers earlier⟩

/-- Asks a question until its answer stands. -/
def settle (answers : Nat → Except TransportFault α) (earlier : Nat) : Asked α :=
  c.ask answers c.limit earlier

/-- Asks a question that is always answered alike. -/
def settled (answer : Except TransportFault α) : Asked α := c.settle (fun _ => answer) 0

/-- How often the questions of a poll were asked when the poll is over: until both are answered, or
until the first of them has failed. -/
def rounds {β : Type} (block : Asked α) (logs : Asked β) : Nat :=
  match block.answer, logs.answer with
  | .ok _, .ok _ => max block.times logs.times
  | .error _, .ok _ => block.times
  | .ok _, .error _ => logs.times
  | .error _, .error _ => min block.times logs.times

/-- One poll of a node, and how often its questions were asked behind it. If the logs have failed
before there is an answer about the block, nothing is known of the block; if both fail at once, it
is the failure of the block that counts. -/
def poll (n : Node) (asked : Questions) (earlier : Sent) : PollAnswer × Sent :=
  let block := c.settle (n.blockAnswer asked.block) earlier.block
  let logs := c.settle (n.logsAnswer asked) earlier.logs
  let rounds := rounds block logs
  (⟨if block.times ≤ rounds then block.answer else .ok none, logs.answer⟩,
    ⟨earlier.block + min block.times rounds, earlier.logs + min logs.times rounds⟩)

/-- How often the questions about a block were asked behind its first polls. -/
def sent (n : Node) (asked : Questions) : (polls : Nat) → Sent
  | 0 => ⟨0, 0⟩
  | polls + 1 => (c.poll n asked (sent n asked polls)).2

/-- The answers to a feed of a contract's logs, through the client. -/
def answers (n : Node) (contract : Address) (f : Feed) : PollAnswer :=
  let asked := f.questions contract
  (c.poll n asked (c.sent n asked (f.polled.count f.next))).1

/-- The node through the client, as far as it answers a question always alike. -/
def facing (n : Node) : Node :=
  { n with
    chainId := (c.settled n.chainId).answer
    head := (c.settled n.head).answer
    call := fun asked => (c.settled (n.call asked)).answer }

/-- The calls a node receives through the client. -/
def received (n : Node) (calls : List NodeCall) : List NodeCall :=
  calls.flatMap fun asked => List.replicate (c.settled (n.call asked)).times asked

/-! ## The usual client -/

/-- Whether the characters stand somewhere among others. -/
def occursIn (part : List Char) : List Char → Bool
  | [] => part.isEmpty
  | c :: cs => part.isPrefixOf (c :: cs) || occursIn part cs

/-- Whether a text has another one in it. -/
def mentions (text part : String) : Bool := occursIn part.toList text.toList

/-- Whether a node says that it was asked too much, or that it does not know a block another node
has announced. -/
def isPassing (code : Int) (message : String) : Bool :=
  code = 429 || code = -32005 ||
    (code = -32016 && mentions message "rate limit") ||
    (code = -32012 && mentions message "credits") ||
    (code = -32007 && mentions message "request limit reached") ||
    message = "header not found" ||
    message = "daily request count exceeded, request rate limited" ||
    ["rate limit", "rate exceeded", "too many requests", "credits limited", "request limit"].any
      (mentions message)

/-- Whether there was no answer because the node was asked too much, or because it has no time for
now. -/
def isBusy (reason : String) : Bool :=
  ["HTTP error 429 ", "HTTP error 503 "].any (fun status => status.isPrefixOf reason) ||
    mentions reason "429 Too Many Requests"

/-- The client through which the program asks. -/
def usual : Client where
  asksAgain
    | .reply code message => isPassing code message
    | .down reason => isBusy reason
  limit := 10
  exhausted cause := .down s!"Max retries exceeded {cause.message}"

end Client

end OfferBook
