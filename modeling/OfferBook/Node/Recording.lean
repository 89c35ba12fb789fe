import OfferBook.Node

/-!
# Recorded nodes

A node can be recorded as lines of text, so that a command runs on the recording as it would have
run on the node. A line is a keyword and its fields, separated by blanks, and a field that is not
known is a dash:

* `chain NUMBER` or `chain fails CODE WORDS`: the chain the node serves;
* `head NUMBER` or `head fails CODE WORDS`: the head of the chain;
* `call DATA` or `call fails CODE WORDS`: what aggregated calls return;
* `block NUMBER TIMESTAMP`: a block the node knows, to which the lines up to the next block belong;
* `log ADDRESS INDEX TXINDEX TX DATA TOPIC ...`: a log of the block;
* `removed ADDRESS INDEX TXINDEX TX DATA TOPIC ...`: the same, but the block was abandoned;
* `poll known`, `poll waits`, `poll fails CODE WORDS` or `poll nologs CODE WORDS`: how the questions
  about the block were answered the first time, the second time, and so on.

Blank lines are skipped. Reading stops at the first line that records nothing.
-/

namespace OfferBook.Recording

/-- A line that records nothing, and which one it is. -/
structure Unreadable where
  number : Nat
  line : String
  deriving DecidableEq

/-- The words of an unreadable line. -/
def Unreadable.message (u : Unreadable) : String :=
  s!"line {u.number} of the recording says nothing: {u.line}"

/-- What is known before the first line. -/
def blank : Node where
  chainId := .ok Deployment.arbitrum.chainId
  head := .error (.down "no head was recorded")
  call := fun _ => .error (.down "no call was recorded")
  blocks := []

/-- The fields of a line. -/
def fields (line : String) : List String := (line.splitOn " ").filter fun field => !field.isEmpty

/-- A field that may be unknown. -/
def known? {α : Type} (read : String → Option α) (field : String) : Option (Option α) :=
  if field = "-" then some none else (read field).map some

/-- The word that hexadecimal digits write. -/
def word? (field : String) : Option Word := (ofHexText? field).map Word.ofBytes

/-- An error a node answered with: its code, then its words. -/
def reply? : List String → Option TransportFault
  | code :: words => code.toInt?.map fun code => .reply code (" ".intercalate words)
  | [] => none

/-- A log of a block. -/
def log? (block : Nat) (removed : Bool) : List String → Option Log
  | address :: index :: txIndex :: tx :: data :: topics => do
    let address ← Address.ofText? address
    let index ← known? String.toNat? index
    let txIndex ← known? String.toNat? txIndex
    let tx ← known? word? tx
    let data ← ofHexText? data
    let topics ← topics.mapM word?
    pure { address, topics, data, block := some block, tx, txIndex, index, removed }
  | _ => none

/-- How the questions about a block were answered. -/
def poll? : List String → Option PollReply
  | ["known"] => some ⟨.asKnown, none⟩
  | ["waits"] => some ⟨.notYet, none⟩
  | "fails" :: cause => (reply? cause).map fun cause => ⟨.fails cause, none⟩
  | "nologs" :: cause => (reply? cause).map fun cause => ⟨.asKnown, some cause⟩
  | _ => none

/-- The block with what a line records of it. -/
def recordInBlock (b : KnownBlock) : List String → Option KnownBlock
  | "log" :: rest => (log? b.number false rest).map fun log => { b with logs := b.logs ++ [log] }
  | "removed" :: rest => (log? b.number true rest).map fun log => { b with logs := b.logs ++ [log] }
  | "poll" :: rest => (poll? rest).map fun reply => { b with replies := b.replies ++ [reply] }
  | _ => none

/-- The node with what a line records of it. The last block recorded stands first. -/
def record (n : Node) : List String → Option Node
  | [] => some n
  | "chain" :: "fails" :: cause =>
    (reply? cause).map fun cause => { n with chainId := .error cause }
  | ["chain", id] => id.toNat?.map fun chainId => { n with chainId := .ok chainId }
  | "head" :: "fails" :: cause => (reply? cause).map fun cause => { n with head := .error cause }
  | ["head", number] => number.toNat?.map fun head => { n with head := .ok head }
  | "call" :: "fails" :: cause =>
    (reply? cause).map fun cause => { n with call := fun _ => .error cause }
  | ["call", data] => (ofHexText? data).map fun data => { n with call := fun _ => .ok data }
  | ["block", number, timestamp] => do
    let number ← number.toNat?
    let timestamp ← timestamp.toNat?
    pure { n with blocks := ⟨number, timestamp, [], []⟩ :: n.blocks }
  | line =>
    match n.blocks with
    | [] => none
    | b :: blocks => (recordInBlock b line).map fun b => { n with blocks := b :: blocks }

/-- The node with what the lines record, the first of them having the given number. -/
def recordAll (n : Node) (number : Nat) : List String → Except Unreadable Node
  | [] => .ok { n with blocks := n.blocks.reverse }
  | line :: lines =>
    match record n (fields line) with
    | none => .error ⟨number, line⟩
    | some n => recordAll n (number + 1) lines

/-- The node that lines of text record. -/
def read (lines : List String) : Except Unreadable Node := recordAll blank 1 lines

end OfferBook.Recording
