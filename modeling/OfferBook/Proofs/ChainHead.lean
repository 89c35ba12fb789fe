import OfferBook.Proofs.Continuity

/-!
# Batches at the head of the chain

The two questions of a poll are asked at once, but a node serves them one after the other, and the
chain may grow in between. A node that lists no logs for a block it does not have yet can so answer
the question for logs below the block and the question for the block above it. That the block is
there says then nothing about the logs.

`GrowingChain` is such a node: its height is a monotone function of the number of questions served,
and each poll has an order of service of its own. Whether a batch has the logs of its block turns
out to depend on the height at which the logs were listed alone, and that height is too small only
where the logs were served first.

## Main results

* `batch_whole_iff`: which batches of a run have all logs of their blocks.
* `batch_not_whole`: a run that loses a log.
-/

namespace OfferBook

/-- Which question of a poll is served first. -/
inductive Service where
  | blockFirst
  | logsFirst
  deriving DecidableEq

/-- A chain that grows while a node serves questions about it, and is not reorganised: its height
when the questions are served, in turn, and the timestamps and logs of the blocks it has or will
have. -/
structure GrowingChain where
  height : Nat → Nat
  timestamp : Nat → Nat
  logs : Nat → List Log
  grows : ∀ turn, height turn ≤ height (turn + 1)
  stands : ∀ n, ∀ log ∈ logs n, log.removed = false

namespace GrowingChain

/-- The timestamp of a block that is there at a height. -/
def blockAt (c : GrowingChain) (height n : Nat) : Option Nat :=
  if n ≤ height then some (c.timestamp n) else none

/-- The logs of a contract that a block has, or will have. -/
def logsOf (c : GrowingChain) (contract : Address) (n : Nat) : List Log :=
  (c.logs n).filter fun log => log.address = contract

/-- The logs of a contract in a range of blocks, as far as these are there at a height. -/
def logsAt (c : GrowingChain) (height : Nat) (filter : LogFilter) : List Log :=
  let numbers := List.range' filter.fromBlock (filter.toBlock + 1 - filter.fromBlock)
  (numbers.filter fun n => n ≤ height).flatMap (c.logsOf filter.contract)

/-- The height at which a poll's question for the block is served. Every poll takes two turns. -/
def blockHeight (c : GrowingChain) (order : Nat → Service) (poll : Nat) : Nat :=
  match order poll with
  | .blockFirst => c.height (2 * poll)
  | .logsFirst => c.height (2 * poll + 1)

/-- The height at which a poll's question for logs is served. -/
def logsHeight (c : GrowingChain) (order : Nat → Service) (poll : Nat) : Nat :=
  match order poll with
  | .blockFirst => c.height (2 * poll + 1)
  | .logsFirst => c.height (2 * poll)

/-- The node's answers: every question is answered by the chain as it is at its turn. -/
def answers (c : GrowingChain) (order : Nat → Service) (contract : Address) (f : Feed) :
    PollAnswer :=
  let poll := f.polled.length
  let asked := f.questions contract
  ⟨.ok (c.blockAt (c.blockHeight order poll) asked.block),
    .ok (c.logsAt (c.logsHeight order poll) asked.logs)⟩

variable (c : GrowingChain) (order : Nat → Service) (contract : Address)

theorem le_of_blockAt {height n timestamp : Nat} (h : c.blockAt height n = some timestamp) :
    n ≤ height := by
  by_cases hle : n ≤ height
  · exact hle
  · rw [blockAt, if_neg hle] at h
    cases h

/-- Asked for one block alone, the node lists its logs if it is there, and otherwise none. -/
theorem logsAt_single (height n : Nat) :
    c.logsAt height ⟨contract, n, n⟩ = if n ≤ height then c.logsOf contract n else [] := by
  by_cases hle : n ≤ height <;> simp [logsAt, hle]

/-- What restores the logs of a block has all of them, for none of them is abandoned. -/
theorem mem_of_restores {n : Nat} {logs : List Log} (h : Restores (c.logsOf contract n) logs) :
    ∀ log ∈ c.logsOf contract n, log ∈ logs := by
  intro log hlog
  refine h.perm.mem_iff.mpr (List.mem_filter.mpr ⟨hlog, ?_⟩)
  rw [c.stands n log (List.mem_filter.mp hlog).1]
  rfl

/-- The logs are listed below the block only where they are served first. -/
theorem logsFirst_of_lt {poll : Nat} (h : c.logsHeight order poll < c.blockHeight order poll) :
    order poll = .logsFirst := by
  cases horder : order poll with
  | logsFirst => rfl
  | blockFirst =>
      simp only [logsHeight, blockHeight, horder] at h
      have := c.grows (2 * poll)
      omega

/-- What a batch is made of: a block that was there, and the logs that were listed for it. -/
theorem batch_of_poll {interval : Nat} {f : Feed} {b : Batch}
    (hb : (f.poll contract interval (c.answers order contract)).batch? = some b) :
    b.instant.block = f.next ∧ f.next ≤ c.blockHeight order f.polled.length ∧
      Restores
        (if f.next ≤ c.logsHeight order f.polled.length then c.logsOf contract f.next else [])
        b.logs := by
  obtain ⟨hblock, hthere, listed, hlisted, hrestores⟩ := Feed.answered_of_batch hb
  refine ⟨hblock, c.le_of_blockAt (Except.ok.inj hthere), ?_⟩
  rw [← logsAt_single, show c.logsAt _ ⟨contract, f.next, f.next⟩ = listed from
    Except.ok.inj hlisted]
  exact hrestores

/-- **Logs at the head of the chain.** A feed follows a chain that may grow between any two
questions the node serves, the questions of each poll being served in any order. A batch that the
i-th poll yields:

* is of a block that was there when the question for it was served;
* has the logs of its block, those of the contract and in their order, if the block was there when
  the logs were listed; otherwise the logs were served first, and it has none;
* so it has all logs of its block exactly if the block was there when the logs were listed, or has
  none;
* is the last that is seen of its block: every later poll asks for later blocks. -/
theorem batch_whole_iff (interval first k : Nat) :
    let run := (Feed.start first).polls contract interval (c.answers order contract) k
    ∀ i p b, run[i]? = some p → p.batch? = some b →
      let n := b.instant.block
      let listed := c.logsOf contract n
      (n ≤ c.blockHeight order i) ∧
        ((n ≤ c.logsHeight order i ∧ Restores listed b.logs) ∨
          (order i = .logsFirst ∧ c.logsHeight order i < n ∧ b.logs = [])) ∧
        ((∀ log ∈ listed, log ∈ b.logs) ↔ n ≤ c.logsHeight order i ∨ listed = []) ∧
        (first + (run.filterMap Poll.batch?).length < 0x10000000000000000 →
          ∀ j q, i < j → run[j]? = some q → n < q.asked.block ∧ n < q.asked.logs.fromBlock) := by
  intro run i p b hp hb n listed
  obtain ⟨hi, rfl, -⟩ := Feed.getElem?_polls hp
  have hpolled : ((Feed.start first).after (c.answers order contract) i).polled.length = i := by
    rw [Feed.polled_after]
    exact Nat.zero_add i
  obtain ⟨hblock, hthere, hrestores⟩ := c.batch_of_poll order contract hb
  rw [hpolled, ← hblock] at hthere hrestores
  -- The batch has what was listed, which is either all there is or nothing.
  have hcases : (n ≤ c.logsHeight order i ∧ Restores listed b.logs) ∨
      (order i = .logsFirst ∧ c.logsHeight order i < n ∧ b.logs = []) := by
    by_cases hlisted : n ≤ c.logsHeight order i
    · rw [if_pos hlisted] at hrestores
      exact .inl ⟨hlisted, hrestores⟩
    · rw [if_neg hlisted] at hrestores
      refine .inr ⟨c.logsFirst_of_lt order ?_, Nat.lt_of_not_le hlisted, ?_⟩
      · exact Nat.lt_of_lt_of_le (Nat.lt_of_not_le hlisted) hthere
      · exact hrestores.perm.eq_nil
  refine ⟨hthere, hcases, ⟨fun hall => ?_, fun hwhole => ?_⟩, fun hroom j q hij hq => ?_⟩
  · rcases hcases with ⟨hlisted, -⟩ | ⟨-, -, hnone⟩
    · exact .inl hlisted
    · rw [hnone] at hall
      exact .inr (List.eq_nil_iff_forall_not_mem.mpr fun log hlog => nomatch hall log hlog)
  · rcases hcases with ⟨-, hall⟩ | ⟨-, hlt, -⟩
    · exact c.mem_of_restores contract hall
    · rcases hwhole with hle | hempty
      · exact absurd hle (Nat.not_le_of_lt hlt)
      · rw [hempty]
        exact fun log hlog => nomatch hlog
  · obtain ⟨hj, rfl, -⟩ := Feed.getElem?_polls hq
    have hlater := Feed.block_lt_next_after hb hij (Nat.le_of_lt hj) hroom
    exact ⟨hlater, hlater⟩

/-- A log of block 6. -/
def risen : Log := ⟨0xdd, [], [], some 6, none, some 0, some 0, false⟩

/-- A chain that is at block 5 at first and grows by a block with every question; block 6 has a
log. -/
def rising : GrowingChain where
  height turn := 5 + turn
  timestamp n := 100 + n
  logs n := if n = 6 then [risen] else []
  grows _ := Nat.le_succ _
  stands n log h := by
    split at h
    · rw [List.mem_singleton.mp h]
      rfl
    · cases h

/-- With the blocks served first, block 6 is missing at first and has its log then. -/
theorem batch_whole_iff_blockFirst :
    let c := rising
    let run := (Feed.start 6).polls 0xdd 250 (c.answers (fun _ => .blockFirst) 0xdd) 2
    ∃ p b, run[1]? = some p ∧ p.batch? = some b ∧ b.instant.block = 6 ∧
      ∀ log ∈ c.logsOf 0xdd 6, log ∈ b.logs := by
  intro c run
  have hbatch := c.batch_whole_iff (fun _ => .blockFirst) 0xdd 250 6 2 1 _ _ rfl rfl
  exact ⟨_, _, rfl, rfl, rfl, hbatch.2.2.1.mpr (.inl (by decide))⟩

/-- With the logs served first, block 6 has none of its logs, and the feed goes on to block 7: what
follows the first poll is a batch that lost a log. -/
theorem batch_not_whole :
    let c := rising
    let run := (Feed.start 6).polls 0xdd 250 (c.answers (fun _ => .logsFirst) 0xdd) 2
    ∃ p q b, run = [p, q] ∧ p.batch? = some b ∧ b.instant.block = 6 ∧ b.logs = [] ∧
      c.logsOf 0xdd 6 = [risen] ∧ q.asked.block = 7 :=
  ⟨_, _, _, rfl, rfl, rfl, List.mergeSort_nil, by decide, rfl⟩

end GrowingChain

end OfferBook
