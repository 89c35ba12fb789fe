import OfferBook.Feed
import OfferBook.Proofs.Sorting

/-!
# The feed is continuous

A feed is a loop around one poll. `step_cases` lists what a poll can come to: a question failed,
and the feed stays at its block; the block is not there, and the feed stays as well; or there is a
batch, and the feed goes on by one block. Only the last case moves it, so a feed always stands as
many blocks behind its first as it yielded batches (`next_after`). Everything that is said of the
requests of a run follows from that one equation.

A consumer does not see polls, it pulls items. Pulling is polling up to the next item
(`polls_of_pull`), with one sleep for every poll that found no block. What is to be said of a pulled
item goes by `pull_induction`: the item comes with the first poll, or after another wait.

## Main results

* `restores_canonical`: the logs of a batch are those listed that stand, stably sorted.
* `step_cases`: what one poll can come to.
* `next_after`: where a feed stands after a run, and which blocks it yielded.
* `polls_continuous`: the requests, items and sleeps of every run.
-/

namespace OfferBook

/-- A question of the poll was answered with a failure, and this is its cause. -/
def PollAnswer.FailsBy (a : PollAnswer) (cause : TransportFault) : Prop :=
  a.block = .error cause ∨ a.logs = .error cause

/-- The logs are those of the listed ones that stand. Those without an index come first, the others
in order of their indices, and logs of the same index as they were listed. -/
structure Restores (listed logs : List Log) : Prop where
  perm : logs.Perm (listed.filter fun log => !log.removed)
  ordered : logs.Pairwise fun x y => ∀ i, x.index = some i → ∃ j, y.index = some j ∧ i ≤ j
  ties : ∀ i, (logs.filter fun log => log.index = i) =
    (listed.filter fun log => !log.removed).filter fun log => log.index = i

/-- What may follow the answers to a poll of a block: the failure of a question as an item; a sleep,
if both were answered and there is no block; or the block with its logs as an item. -/
inductive Follows (interval block : Nat) : PollAnswer → Sequel → Prop where
  | failed {a : PollAnswer} {cause : TransportFault} (h : a.FailsBy cause) :
      Follows interval block a (.yields (.error (.transport cause)))
  | missing (listed : List Log) :
      Follows interval block ⟨.ok none, .ok listed⟩ (.sleeps interval)
  | found (timestamp : Nat) {listed logs : List Log} (h : Restores listed logs) :
      Follows interval block ⟨.ok (some timestamp), .ok listed⟩
        (.yields (.ok ⟨⟨block, timestamp⟩, logs⟩))

section Follows

variable {interval block : Nat} {a : PollAnswer} {s : Sequel}

theorem not_failsBy_ok {timestamp : Option Nat} {listed : List Log} {cause : TransportFault} :
    ¬ PollAnswer.FailsBy ⟨.ok timestamp, .ok listed⟩ cause := by
  rintro (h | h) <;> cases h

/-- A failure is yielded exactly if a question failed. -/
theorem Follows.failed_iff (h : Follows interval block a s) :
    (∃ fault, s = .yields (.error fault)) ↔ ∃ cause, a.FailsBy cause := by
  cases h with
  | @failed _ cause h => exact ⟨fun _ => ⟨cause, h⟩, fun _ => ⟨_, rfl⟩⟩
  | missing listed => exact ⟨fun ⟨_, h⟩ => (nomatch h), fun ⟨_, h⟩ => absurd h not_failsBy_ok⟩
  | found timestamp h => exact ⟨fun ⟨_, h⟩ => (nomatch h), fun ⟨_, h⟩ => absurd h not_failsBy_ok⟩

/-- The feed sleeps exactly if both questions were answered and there is no block. -/
theorem Follows.sleeps_iff (h : Follows interval block a s) :
    s = .sleeps interval ↔ ∃ listed, a = ⟨.ok none, .ok listed⟩ := by
  cases h with
  | failed h =>
      refine ⟨fun h => (nomatch h), fun ⟨listed, ha⟩ => ?_⟩
      rw [ha] at h
      exact absurd h not_failsBy_ok
  | missing listed => exact ⟨fun _ => ⟨listed, rfl⟩, fun _ => rfl⟩
  | found timestamp h => exact ⟨fun h => (nomatch h), fun ⟨_, ha⟩ => (nomatch ha)⟩

/-- A batch is yielded only if both questions were answered, and is made of the answers. -/
theorem Follows.of_batch {b : Batch} (h : Follows interval block a (.yields (.ok b))) :
    b.instant.block = block ∧ a.block = .ok (some b.instant.timestamp) ∧
      ∃ listed, a.logs = .ok listed ∧ Restores listed b.logs := by
  cases h with
  | @found timestamp listed logs h => exact ⟨rfl, rfl, listed, rfl, h⟩

end Follows

/-- A poll that yielded a batch. -/
theorem Poll.sequel_of_batch? {p : Poll} {b : Batch} (h : p.batch? = some b) :
    p.sequel = .yields (.ok b) := by
  unfold batch? at h
  split at h
  · cases h
    assumption
  · cases h

/-- What follows the polls of one pulled item: a sleep behind each poll that the feed waited for,
and the item. -/
def Pulled.sequels (interval : Nat) (p : Pulled) : List Sequel :=
  List.replicate p.waits (.sleeps interval) ++ [.yields p.item]

namespace Feed

/-! ## The logs of a batch -/

theorem indexLe_iff {a b : Option Nat} :
    indexLe a b = true ↔ ∀ i, a = some i → ∃ j, b = some j ∧ i ≤ j := by
  cases a <;> cases b <;> simp [indexLe]

private theorem indexLe_trans (a b c : Option Nat) (hab : indexLe a b = true)
    (hbc : indexLe b c = true) : indexLe a c = true := by
  rw [indexLe_iff] at *
  intro i hi
  obtain ⟨j, hj, hij⟩ := hab i hi
  obtain ⟨k, hk, hjk⟩ := hbc j hj
  exact ⟨k, hk, Nat.le_trans hij hjk⟩

private theorem indexLe_total (a b : Option Nat) : (indexLe a b || indexLe b a) = true := by
  cases a with
  | none => rfl
  | some i =>
      cases b with
      | none => rfl
      | some j => simpa [indexLe] using Nat.le_total i j

theorem restores_canonical (listed : List Log) : Restores listed (canonical listed).value where
  perm := List.mergeSort_perm _ _
  ordered :=
    (List.pairwise_mergeSort (fun a b c => indexLe_trans a.index b.index c.index)
      (fun a b => indexLe_total a.index b.index) _).imp indexLe_iff.mp
  ties := by
    intro i
    refine filter_mergeSort_of_tied (fun a b c => indexLe_trans a.index b.index c.index)
      (fun a b => indexLe_total a.index b.index) (fun a b ha hb => ?_) _
    rw [of_decide_eq_true ha, of_decide_eq_true hb]
    exact indexLe_iff.mpr fun j hj => ⟨j, hj, Nat.le_refl j⟩

/-! ## One poll -/

/-- A poll fails, finds no block, or finds a batch; only a batch moves the feed. -/
theorem step_cases (f : Feed) (a : PollAnswer) :
    (∃ cause, a.FailsBy cause ∧
        (f.step a).value = (⟨f.next, f.next :: f.polled⟩, some (.error (.transport cause)))) ∨
      (∃ listed, a = ⟨.ok none, .ok listed⟩ ∧
        (f.step a).value = (⟨f.next, f.next :: f.polled⟩, none)) ∨
      ∃ timestamp listed, a = ⟨.ok (some timestamp), .ok listed⟩ ∧
        (f.step a).value = (⟨next64 f.next, f.next :: f.polled⟩,
          some (.ok ⟨⟨f.next, timestamp⟩, (canonical listed).value⟩)) := by
  obtain ⟨block, logs⟩ := a
  cases block with
  | error cause => exact .inl ⟨cause, .inl rfl, rfl⟩
  | ok block =>
      cases logs with
      | error cause => exact .inl ⟨cause, .inr rfl, rfl⟩
      | ok listed =>
          cases block with
          | none => exact .inr (.inl ⟨listed, rfl, rfl⟩)
          | some timestamp => exact .inr (.inr ⟨timestamp, listed, rfl, rfl⟩)

/-- Every poll is noted. -/
theorem polled_step (f : Feed) (a : PollAnswer) :
    (f.step a).value.1.polled = f.next :: f.polled := by
  rcases step_cases f a with ⟨_, _, h⟩ | ⟨_, _, h⟩ | ⟨_, _, _, h⟩ <;> rw [h]

/-- Where there is no item, the feed stays at its block. -/
theorem next_step_of_missing {f : Feed} {a : PollAnswer} (h : (f.step a).value.2 = none) :
    (f.step a).value.1.next = f.next := by
  rcases step_cases f a with ⟨cause, -, hstep⟩ | ⟨listed, -, hstep⟩ | ⟨timestamp, listed, -, hstep⟩
  · rw [hstep]
  · rw [hstep]
  · rw [hstep] at h
    cases h

/-! ## Runs of polls -/

variable {contract : Address} {interval : Nat} {answers : Feed → PollAnswer} {f : Feed}

/-- The feed after so many polls. -/
def after (answers : Feed → PollAnswer) : Nat → Feed → Feed
  | 0, f => f
  | k + 1, f => after answers k (f.step (answers f)).value.1

/-- So many polls, whoever pulls the items. -/
def polls (contract : Address) (interval : Nat) (answers : Feed → PollAnswer) :
    Nat → Feed → List Poll
  | 0, _ => []
  | k + 1, f =>
    f.poll contract interval answers ::
      polls contract interval answers k (f.step (answers f)).value.1

/-- So many items pulled one after another, or those before the first that does not come. -/
def pulls (answers : Feed → PollAnswer) (patience : Nat) : Nat → Feed → List Pulled
  | 0, _ => []
  | n + 1, f =>
    match (f.pull answers patience).value with
    | some p => p :: pulls answers patience n p.feed
    | none => []

theorem length_polls (contract : Address) (interval : Nat) (answers : Feed → PollAnswer) (k : Nat)
    (f : Feed) : (f.polls contract interval answers k).length = k := by
  induction k generalizing f with
  | zero => rfl
  | succ k ih => rw [polls, List.length_cons, ih]

theorem polls_add (i k : Nat) (f : Feed) :
    f.polls contract interval answers (i + k) =
      f.polls contract interval answers i ++
        (f.after answers i).polls contract interval answers k := by
  induction i generalizing f with
  | zero => rw [Nat.zero_add]; rfl
  | succ i ih =>
      rw [Nat.add_right_comm, polls, ih]
      rfl

/-- A poll of a run is the next one of the feed as it is after the polls before. -/
theorem getElem?_polls {k i : Nat} {p : Poll}
    (h : (f.polls contract interval answers k)[i]? = some p) :
    i < k ∧ p = (f.after answers i).poll contract interval answers ∧
      (f.polls contract interval answers k).take i = f.polls contract interval answers i := by
  have hi : i < k := by
    have hlt := (List.getElem?_eq_some_iff.mp h).1
    rwa [length_polls] at hlt
  obtain ⟨rest, rfl⟩ : ∃ rest, k = i + (rest + 1) := ⟨k - i - 1, by omega⟩
  have hlength := length_polls contract interval answers i f
  rw [polls_add, List.getElem?_append_right (by omega), hlength, Nat.sub_self] at h
  refine ⟨hi, ?_, ?_⟩
  · exact (Option.some.inj h).symm
  · rw [polls_add, List.take_left' hlength]

theorem polled_after (answers : Feed → PollAnswer) (k : Nat) (f : Feed) :
    (f.after answers k).polled.length = f.polled.length + k := by
  induction k generalizing f with
  | zero => rfl
  | succ k ih => rw [after, ih, polled_step, List.length_cons, Nat.add_assoc, Nat.add_comm 1]

/-- What follows a poll, told by the answers. -/
theorem follows_poll (contract : Address) (interval : Nat) (answers : Feed → PollAnswer)
    (f : Feed) : Follows interval f.next (f.poll contract interval answers).answer
      (f.poll contract interval answers).sequel := by
  simp only [poll]
  rcases step_cases f (answers f) with ⟨cause, hfails, hstep⟩ | ⟨listed, ha, hstep⟩ |
    ⟨timestamp, listed, ha, hstep⟩
  · rw [hstep]
    exact .failed hfails
  · rw [hstep, ha]
    exact .missing listed
  · rw [hstep, ha]
    exact .found timestamp (restores_canonical listed)

/-- A batch is made of the answers to both questions. -/
theorem answered_of_batch {f : Feed} {b : Batch}
    (h : (f.poll contract interval answers).batch? = some b) :
    b.instant.block = f.next ∧ (answers f).block = .ok (some b.instant.timestamp) ∧
      ∃ listed, (answers f).logs = .ok listed ∧ Restores listed b.logs := by
  have hfollows := follows_poll contract interval answers f
  rw [Poll.sequel_of_batch? h] at hfollows
  exact hfollows.of_batch

/-- A batch is of the block that was next, and moves the feed on; without a batch it stays. -/
theorem batch?_poll (contract : Address) (interval : Nat) (answers : Feed → PollAnswer)
    (f : Feed) :
    ((f.poll contract interval answers).batch? = none ∧
        (f.step (answers f)).value.1.next = f.next) ∨
      ∃ b, (f.poll contract interval answers).batch? = some b ∧ b.instant.block = f.next ∧
        (f.step (answers f)).value.1.next = next64 f.next := by
  simp only [poll, Poll.batch?]
  rcases step_cases f (answers f) with ⟨cause, -, hstep⟩ | ⟨listed, -, hstep⟩ |
    ⟨timestamp, listed, -, hstep⟩
  · rw [hstep]
    exact .inl ⟨rfl, rfl⟩
  · rw [hstep]
    exact .inl ⟨rfl, rfl⟩
  · rw [hstep]
    exact .inr ⟨_, rfl, rfl, rfl⟩

/-- A feed stands as many blocks behind its first as it yielded batches, and these are of the blocks
in between. -/
theorem next_after (contract : Address) (interval : Nat) (answers : Feed → PollAnswer) (k : Nat)
    (f : Feed) :
    let batches := (f.polls contract interval answers k).filterMap Poll.batch?
    f.next + batches.length < 0x10000000000000000 →
      (f.after answers k).next = f.next + batches.length ∧
        batches.map (fun b => b.instant.block) = List.range' f.next batches.length := by
  induction k generalizing f with
  | zero => exact fun _ => ⟨rfl, rfl⟩
  | succ k ih =>
      intro batches hroom
      have hrest := ih (f.step (answers f)).value.1
      simp only [batches, polls, after] at hroom hrest ⊢
      rcases batch?_poll contract interval answers f with ⟨hbatch, hstay⟩ |
        ⟨b, hbatch, hblock, hmove⟩
      · rw [List.filterMap_cons_none hbatch] at hroom ⊢
        rw [hstay] at hrest
        exact hrest hroom
      · rw [List.filterMap_cons_some hbatch, List.length_cons] at hroom ⊢
        rw [hmove, next64_of_lt (by omega)] at hrest
        obtain ⟨hat, hblocks⟩ := hrest (by omega)
        refine ⟨by omega, ?_⟩
        rw [List.map_cons, hblock, hblocks, List.range'_succ]

/-- A longer run yields more batches. -/
theorem length_batches_le (contract : Address) (interval : Nat) (answers : Feed → PollAnswer)
    (f : Feed) {i k : Nat} (hik : i ≤ k) :
    ((f.polls contract interval answers i).filterMap Poll.batch?).length ≤
      ((f.polls contract interval answers k).filterMap Poll.batch?).length := by
  obtain ⟨rest, rfl⟩ := Nat.exists_eq_add_of_le hik
  rw [polls_add, List.filterMap_append, List.length_append]
  exact Nat.le_add_right _ _

/-- Behind a batch, only later blocks are polled. -/
theorem block_lt_next_after {i j k : Nat} {b : Batch}
    (hb : ((f.after answers i).poll contract interval answers).batch? = some b) (hij : i < j)
    (hjk : j ≤ k)
    (hroom : f.next + ((f.polls contract interval answers k).filterMap Poll.batch?).length <
      0x10000000000000000) :
    b.instant.block < (f.after answers j).next := by
  have hblock := (answered_of_batch hb).1
  have hbehind := length_batches_le contract interval answers f (show i + 1 ≤ j from hij)
  rw [polls_add, List.filterMap_append, List.length_append, polls,
    List.filterMap_cons_some hb, List.length_cons] at hbehind
  have hwithin := length_batches_le contract interval answers f hjk
  have hat := (next_after contract interval answers i f (by omega)).1
  have hlater := (next_after contract interval answers j f (by omega)).1
  omega

/-! ## Pulled items -/

theorem pull_of_item {item : Except Fault Batch}
    (h : (f.step (answers f)).value.2 = some item) (patience : Nat) :
    (f.pull answers (patience + 1)).value = some ⟨(f.step (answers f)).value.1, 0, item⟩ := by
  obtain ⟨g, hg⟩ : ∃ g, (f.step (answers f)).value = (g, some item) := ⟨_, Prod.ext rfl h⟩
  rw [pull, Traced.value_bind, hg]
  rfl

theorem pull_of_missing (h : (f.step (answers f)).value.2 = none) (patience : Nat) :
    (f.pull answers (patience + 1)).value =
      ((f.step (answers f)).value.1.pull answers patience).value.map fun p =>
        { p with waits := p.waits + 1 } := by
  obtain ⟨g, hg⟩ : ∃ g, (f.step (answers f)).value = (g, none) := ⟨_, Prod.ext rfl h⟩
  rw [pull, Traced.value_bind, hg]
  rfl

/-- What holds of an item that the first poll yields, and of one that comes after another wait,
holds of every item pulled. -/
theorem pull_induction {motive : Feed → Pulled → Prop} {patience : Nat} {p : Pulled}
    (h : (f.pull answers patience).value = some p)
    (item : ∀ f item, (f.step (answers f)).value.2 = some item →
      motive f ⟨(f.step (answers f)).value.1, 0, item⟩)
    (missing : ∀ f p, (f.step (answers f)).value.2 = none →
      motive (f.step (answers f)).value.1 p → motive f { p with waits := p.waits + 1 }) :
    motive f p := by
  induction patience generalizing f p with
  | zero => cases h
  | succ patience ih =>
      cases hstep : (f.step (answers f)).value.2 with
      | some x =>
          rw [pull_of_item hstep] at h
          exact Option.some.inj h ▸ item f x hstep
      | none =>
          rw [pull_of_missing hstep] at h
          obtain ⟨later, hlater, rfl⟩ := Option.map_eq_some_iff.mp h
          exact missing f later hstep (ih hlater)

/-- Pulling an item is polling until there is one. -/
theorem polls_of_pull (contract : Address) (interval : Nat) {patience : Nat} {p : Pulled}
    (h : (f.pull answers patience).value = some p) :
    p.feed = f.after answers (p.waits + 1) ∧
      (f.polls contract interval answers (p.waits + 1)).map Poll.sequel = p.sequels interval := by
  refine pull_induction (motive := fun f p => p.feed = f.after answers (p.waits + 1) ∧
    (f.polls contract interval answers (p.waits + 1)).map Poll.sequel = p.sequels interval) h ?_ ?_
  · intro f item hstep
    refine ⟨rfl, ?_⟩
    rw [polls, List.map_cons, poll, hstep]
    rfl
  · rintro f p hstep ⟨hfeed, hsequels⟩
    refine ⟨hfeed, ?_⟩
    rw [polls, List.map_cons, poll, hstep, hsequels]
    rfl

/-- Pulling items is polling. -/
theorem polls_of_pulls (contract : Address) (interval : Nat) (answers : Feed → PollAnswer)
    (patience n : Nat) (f : Feed) :
    ∃ k, (f.pulls answers patience n).flatMap (Pulled.sequels interval) =
      (f.polls contract interval answers k).map Poll.sequel := by
  induction n generalizing f with
  | zero => exact ⟨0, rfl⟩
  | succ n ih =>
      rw [pulls]
      cases hpull : (f.pull answers patience).value with
      | none => exact ⟨0, rfl⟩
      | some p =>
          obtain ⟨hfeed, hsequels⟩ := polls_of_pull contract interval hpull
          obtain ⟨k, hk⟩ := ih p.feed
          refine ⟨p.waits + 1 + k, ?_⟩
          rw [polls_add, List.map_append, hsequels, ← hfeed, ← hk]
          rfl

/-! ## Every run -/

/-- **The feed is continuous.** A node answers every poll in any way, the k-th one as the script
has it. As long as the blocks are numbers of 64 bits:

* the batches that the feed yields are of the first block and the blocks behind it, one after
  another, whatever failures come in between;
* each poll asks for one block, and for the logs of the contract in that block alone: the block that
  stands as many places behind the first as batches were yielded before;
* the poll yields a failure exactly if a question failed, of which it is the failure, and sleeps
  exactly if both questions were answered and there is no block; otherwise it yields the block with
  the logs listed that stand, stably sorted by their indices;
* a consumer that pulls items sees what the polls yielded, in order, the feed having slept as often
  as it waited. -/
theorem polls_continuous (contract : Address) (interval : Nat) (script : Nat → PollAnswer)
    (first k : Nat) :
    let answers := fun f : Feed => script f.polled.length
    let run := fun k => (start first).polls contract interval answers k
    let batches := (run k).filterMap Poll.batch?
    first + batches.length < 0x10000000000000000 →
      batches.map (fun b => b.instant.block) = List.range' first batches.length ∧
        (∀ i p, (run k)[i]? = some p →
          let here := first + (((run k).take i).filterMap Poll.batch?).length
          p.asked = ⟨here, contract, here, here⟩ ∧ p.answer = script i ∧
            Follows interval here p.answer p.sequel ∧
            ((∃ fault, p.sequel = .yields (.error fault)) ↔ ∃ cause, (script i).FailsBy cause) ∧
            (p.sequel = .sleeps interval ↔ ∃ listed, script i = ⟨.ok none, .ok listed⟩)) ∧
        ∀ patience n, ∃ j, ((start first).pulls answers patience n).flatMap
          (Pulled.sequels interval) = (run j).map Poll.sequel := by
  intro answers run batches hroom
  refine ⟨(next_after contract interval answers k (start first) hroom).2, fun i p hp => ?_,
    fun patience n => polls_of_pulls contract interval answers patience n (start first)⟩
  intro here
  obtain ⟨hi, rfl, htake⟩ := getElem?_polls hp
  have hnext : ((start first).after answers i).next = here := by
    have hle := length_batches_le contract interval answers (start first) (Nat.le_of_lt hi)
    have hat := (next_after contract interval answers i (start first)
      (Nat.lt_of_le_of_lt (Nat.add_le_add_left hle first) hroom)).1
    rw [hat]
    simp only [here, run, htake]
    rfl
  have hpolled : ((start first).after answers i).polled.length = i := by
    rw [polled_after]
    exact Nat.zero_add i
  have hanswer : (((start first).after answers i).poll contract interval answers).answer =
      script i := congrArg script hpolled
  have hfollows := follows_poll contract interval answers ((start first).after answers i)
  rw [hnext] at hfollows
  refine ⟨?_, hanswer, hfollows, hanswer ▸ hfollows.failed_iff, hanswer ▸ hfollows.sleeps_iff⟩
  rw [← hnext]
  rfl

/-- The first block is not there at first, and then its logs cannot be listed. -/
theorem polls_continuous_held_back :
    let script : Nat → PollAnswer := fun
      | 0 => ⟨.ok none, .ok []⟩
      | 1 => ⟨.ok (some 100), .error (.down "no answer")⟩
      | k => ⟨.ok (some (100 + k)), .ok []⟩
    let run := (start 7).polls 0xdd 250 (fun f => script f.polled.length) 4
    let batches := run.filterMap Poll.batch?
    7 + batches.length < 0x10000000000000000 ∧
      batches.map (fun b => b.instant.block) = [7, 8] ∧
      ∃ p, run[3]? = some p ∧ p.asked = ⟨8, 0xdd, 8, 8⟩ ∧ p.answer = script 3 := by
  intro script run batches
  have hlength : batches.length = 2 := by decide +kernel
  have hroom : 7 + batches.length < 0x10000000000000000 := by
    rw [hlength]
    decide
  obtain ⟨hblocks, hpolls, -⟩ := polls_continuous 0xdd 250 script 7 4 hroom
  obtain ⟨hasked, hanswer, -⟩ := hpolls 3 _ rfl
  refine ⟨hroom, ?_, _, rfl, hasked, hanswer⟩
  rw [hlength] at hblocks
  exact hblocks

end Feed

end OfferBook
