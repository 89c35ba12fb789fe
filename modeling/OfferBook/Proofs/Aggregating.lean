import OfferBook.Node
import OfferBook.Proofs.Fetching

/-!
# Batches through the aggregator

To a node a batch of calls is one call of the aggregating contract, and its results are what that
call returns. A reader in memory answers the calls of a batch itself. Both are readers, and what
is fetched from one should be what is fetched from the other wherever the contracts behind the
node answer as the memory does.

`Node.Serves` says so of a node's aggregator, with a reader in memory for every block of the chain.
It speaks of batches that let single calls fail, sent to the aggregator, and of nothing else: any
other call may be refused, or answered by anything. That a batch is answered right therefore says
where it was sent, as of which block, and what it asked for.

## Main results

* `batch_of_serves`: what comes back through the aggregator is the answers, call by call.
* `reader_agrees_with_memory`: the two kinds of reader agree on every batch and on every book.
-/

namespace OfferBook

namespace Fetcher

/-- The batch that describes a market's book is short. -/
theorem length_encodeBatch_request (f : Fetcher) :
    (Contract.encodeBatch f.request).length = 420 := by
  have hquery : (Contract.OfferListQuery.ofMarket f.market f.pageSize).encode.length = 164 := by
    simp [Contract.OfferListQuery.encode, Contract.offerListSelector]
  simp [Contract.encodeBatch, request, Contract.Call.layout, Contract.tailOfBytes, hquery,
    Contract.padding, Contract.length_tailOfLayouts, Contract.aggregateSelector]

end Fetcher

namespace Node

variable {n : Node} {d : Deployment} {held : Nat → InMemoryReader} {calls : List Contract.Call}
  {block : Nat}

/-- The aggregator answers every batch that lets calls fail by the answers, call by call, of the
reader that holds as of the batch's block. -/
def Serves (n : Node) (aggregator : Address) (held : Nat → InMemoryReader) : Prop :=
  ∀ data block calls, Contract.decodeBatch? data = some (false, calls) →
    n.call ⟨aggregator, data, block⟩ =
      .ok (Contract.encodeResults (calls.map (held block).answer))

/-- What the aggregator is sent reads back as the batch. -/
theorem decodeBatch?_callOf (d : Deployment) (block : Nat)
    (hasked : (Contract.encodeBatch calls).length ≤ Word.max64) :
    Contract.decodeBatch? (callOf d calls block).data = some (false, calls) := by
  have h := Contract.decodeBatch?_encodeBatch hasked []
  rwa [List.append_nil] at h

/-- What comes back through the aggregator is the answers, call by call. -/
theorem batch_of_serves (h : n.Serves d.aggregator held)
    (hasked : (Contract.encodeBatch calls).length ≤ Word.max64)
    (hanswered : (Contract.encodeResults (calls.map (held block).answer)).length ≤ Word.max64) :
    (n.reader d).batch calls block = .ok (calls.map (held block).answer) := by
  have hcall : n.call (callOf d calls block) =
      .ok (Contract.encodeResults (calls.map (held block).answer)) :=
    h _ block calls (decodeBatch?_callOf d block hasked)
  have hresults := Contract.decodeResults?_encodeResults hanswered []
  rw [List.append_nil] at hresults
  simp only [reader, hcall, results, hresults]

/-- **A node and a memory read alike.** Let the aggregator of a deployment serve, as of every
block, what a reader in memory holds there. Then any batch as of a block reaches the node as one
call of the aggregator as of that block, which reads back as the calls of the batch in order, none
of them required to succeed; and its results are the list that the memory returns. So every
attempt to fetch a market's book ends in the same book, or in the same fault, over both. (The data
of a batch and of its results is as long as 64 bits can address; no memory holds more.) -/
theorem reader_agrees_with_memory (h : n.Serves d.aggregator held) (block : Nat)
    (hreach : (held block).failing = false) :
    (∀ calls, (Contract.encodeBatch calls).length ≤ Word.max64 →
      (Contract.encodeResults (calls.map (held block).answer)).length ≤ Word.max64 →
      (∃ data, callsFor d [.batch calls block] = [⟨d.aggregator, data, block⟩] ∧
        Contract.decodeBatch? data = some (false, calls)) ∧
      ∃ results, (n.reader d).batch calls block = .ok results ∧
        (held block).reader.batch calls block = .ok results) ∧
    ∀ f : Fetcher,
      (Contract.encodeResults (f.request.map (held block).answer)).length ≤ Word.max64 →
      f.tryFetch (n.reader d) block = f.tryFetch (held block).reader block := by
  have hmemory (calls : List Contract.Call) :
      (held block).reader.batch calls block = .ok (calls.map (held block).answer) := by
    simp [InMemoryReader.reader, hreach]
  refine ⟨fun calls hasked hanswered => ⟨⟨_, rfl, decodeBatch?_callOf d block hasked⟩, _,
    batch_of_serves h hasked hanswered, hmemory calls⟩, fun f hanswered => ?_⟩
  have hasked : (Contract.encodeBatch f.request).length ≤ Word.max64 := by
    rw [f.length_encodeBatch_request]
    decide
  rw [Fetcher.tryFetch, Fetcher.tryFetch, batch_of_serves h hasked hanswered, hmemory]

/-- From block 7 on the market is listed. A batch asks for its page, for nothing at all, and for
something that is no question; the node refuses all other calls. -/
theorem reader_agrees_with_memory_listed_later :
    let m : Market := ⟨0xaa, 0xbb, 1⟩
    let d := Deployment.arbitrum
    let listed : HeldMarket :=
      ⟨m, 4, [.usual 9 ⟨3, by decide, by decide⟩ 5, .usual 2 ⟨-1, by decide, by decide⟩ 4]⟩
    let held (block : Nat) : InMemoryReader := if 7 ≤ block then .hold .empty listed else .empty
    let refused : TransportFault := .reply 3 "execution reverted"
    let call (c : NodeCall) : Except TransportFault Bytes :=
      match c.target == d.aggregator, Contract.decodeBatch? c.data with
      | true, some (_, calls) => .ok (Contract.encodeResults (calls.map (held c.block).answer))
      | _, _ => .error refused
    let n : Node := ⟨.ok d.chainId, .ok 9, call, []⟩
    let f : Fetcher := ⟨d.reader, m, 1⟩
    let page : Contract.CallResult := ⟨true, (listed.page 1).encode⟩
    (n.reader d).batch (f.request ++ [⟨d.reader, []⟩, ⟨0xdd, [1, 2, 3]⟩]) 7 =
        .ok [page, ⟨false, []⟩, ⟨false, []⟩] ∧
      (n.reader d).batch [] 7 = .ok [] ∧
      (f.tryFetch (n.reader d) 6).value = .error (.marketNotFound m) ∧
      (f.tryFetch (n.reader d) 7).value.toOption.map Book.ids = some [9] := by
  intro m d listed held refused call n f page
  have hserves : n.Serves d.aggregator held := by
    intro data block calls hdata
    simp [n, call, hdata]
  have hreach (block : Nat) : (held block).failing = false := by
    simp only [held]
    split <;> rfl
  obtain ⟨hbatch, hfetch⟩ := reader_agrees_with_memory hserves 7 (hreach 7)
  obtain ⟨-, hfetchBefore⟩ := reader_agrees_with_memory hserves 6 (hreach 6)
  obtain ⟨-, results, hresults, hmemory⟩ :=
    hbatch (f.request ++ [⟨d.reader, []⟩, ⟨0xdd, [1, 2, 3]⟩]) (by decide +kernel)
      (by decide +kernel)
  obtain ⟨-, none, hnone, hmemoryNone⟩ := hbatch [] (by decide +kernel) (by decide +kernel)
  refine ⟨?_, ?_, ?_, ?_⟩
  · rw [hresults, ← hmemory]
    decide +kernel
  · rw [hnone, ← hmemoryNone]
    rfl
  · rw [hfetchBefore f (by decide +kernel)]
    decide +kernel
  · rw [hfetch f (by decide +kernel)]
    decide +kernel

end Node

end OfferBook
