import OfferBook.Command.Run
import OfferBook.Proofs.Continuity
import OfferBook.Proofs.Feeding
import OfferBook.Proofs.Serving

/-!
# The bound on the blocks followed

The commands that follow a market pull an item, then look whether they were interrupted and how many
blocks are left, and only then use the item. With `n` blocks wanted the first `n` items are fed to
the pool as batches, and the bound sinks by one with each (`follow_delivered`); it is never taken
below zero, because a bound of zero ends the run. But it is found to be zero only behind another
item: the run asks for the block behind the last one wanted, drops whatever it gets, and does not
end as long as it gets nothing. An interruption is found no sooner either. What is said here is said
of runs that nobody interrupts until the batches in question have come (`QuietUntil`).

## Main results

* `pull_of_waits`: what patience does to a pull.
* `follow_delivered`: the loop while there are batches and blocks left.
* `follow_alike`: displays that write the same block by block do so in a whole run.
* `run_cases`: what a run comes to before a command is run.
* `BoundKept`, `numBlocks_run`: what the two commands come to with a bound, and when they end.
-/

namespace OfferBook

namespace Feed

variable {answers : Feed → PollAnswer} {f g : Feed} {p : Pulled} {patience : Nat}

/-! ## Patience -/

/-- An item comes to everyone who waits long enough, and it is the same item. -/
theorem pull_of_waits (h : (f.pull answers patience).value = some p) (q : Nat) :
    (f.pull answers q).value = if p.waits < q then some p else none := by
  refine pull_induction (motive := fun f p => ∀ q, (f.pull answers q).value =
    if p.waits < q then some p else none) h ?_ ?_ q
  · intro f item hstep q
    cases q with
    | zero => rfl
    | succ q => rw [pull_of_item hstep, if_pos (Nat.succ_pos q)]
  · intro f p hstep ih q
    cases q with
    | zero => rfl
    | succ q =>
        rw [pull_of_missing hstep, ih]
        by_cases hq : p.waits < q
        · rw [if_pos hq, if_pos (Nat.succ_lt_succ hq)]
          rfl
        · rw [if_neg hq, if_neg fun h => hq (Nat.lt_of_succ_lt_succ h)]
          rfl

theorem pull_of_le (h : (f.pull answers patience).value = some p) {q : Nat} (hq : patience ≤ q) :
    (f.pull answers q).value = some p := by
  have hwaits := pull_of_waits h patience
  rw [h] at hwaits
  rw [pull_of_waits h q, if_pos]
  split at hwaits
  · omega
  · cases hwaits

/-- A block that is never there is waited for without end. -/
theorem pull_of_never {block : Nat}
    (h : ∀ f : Feed, f.next = block → (f.step (answers f)).value.2 = none) (hf : f.next = block)
    (q : Nat) : (f.pull answers q).value = none := by
  induction q generalizing f with
  | zero => rfl
  | succ q ih =>
      rw [pull_of_missing (h f hf), ih ((next_step_of_missing (h f hf)).trans hf)]
      rfl

/-- The feed polls one block until there is an item. -/
theorem polled_of_pull (h : (f.pull answers patience).value = some p) :
    p.feed.polled = List.replicate (p.waits + 1) f.next ++ f.polled := by
  refine pull_induction (motive := fun f p =>
    p.feed.polled = List.replicate (p.waits + 1) f.next ++ f.polled) h ?_ ?_
  · intro f item _
    exact polled_step f (answers f)
  · intro f p hstep ih
    rw [ih, polled_step, next_step_of_missing hstep, List.replicate_succ' (n := p.waits + 1),
      List.append_assoc]
    rfl

theorem polled_suffix_of_pull (h : (f.pull answers patience).value = some p) :
    f.polled <:+ p.feed.polled := by
  rw [polled_of_pull h]
  exact List.suffix_append _ _

/-! ## Batches one after another -/

/-- A batch is of the block that was next. -/
theorem block_of_pull (h : (f.pull answers patience).value = some p) {batch : Batch}
    (hitem : p.item = .ok batch) : batch.instant.block = f.next ∧ p.feed.next = next64 f.next := by
  refine pull_induction (motive := fun f p => ∀ batch, p.item = .ok batch →
    batch.instant.block = f.next ∧ p.feed.next = next64 f.next) h ?_ ?_ batch hitem
  · rintro f item hstep batch rfl
    rcases step_cases f (answers f) with ⟨cause, -, h⟩ | ⟨listed, -, h⟩ | ⟨timestamp, listed, -, h⟩
    · rw [h] at hstep
      cases hstep
    · rw [h] at hstep
      cases hstep
    · rw [h] at hstep ⊢
      cases hstep
      exact ⟨rfl, rfl⟩
  · intro f p hstep ih batch hitem
    rw [← next_step_of_missing hstep]
    exact ih batch hitem

/-- The next items of a feed are these batches, none of them longer waited for than the patience
allows, and behind them the feed stands as given. -/
inductive Delivers (answers : Feed → PollAnswer) (patience : Nat) :
    Feed → List Batch → Feed → Prop
  | nil (f : Feed) : Delivers answers patience f [] f
  | cons {f g : Feed} {p : Pulled} {batch : Batch} {batches : List Batch}
      (hpull : (f.pull answers patience).value = some p) (hitem : p.item = .ok batch)
      (hrest : Delivers answers patience p.feed batches g) :
      Delivers answers patience f (batch :: batches) g

namespace Delivers

variable {batches : List Batch}

/-- Batches that come are of consecutive blocks, and the feed stands behind them. -/
theorem blocks (h : Delivers answers patience f batches g)
    (hroom : f.next + batches.length < 0x10000000000000000) :
    batches.map (fun b => b.instant.block) = List.range' f.next batches.length ∧
      g.next = f.next + batches.length := by
  induction h with
  | nil f => exact ⟨rfl, rfl⟩
  | @cons f g p batch batches hpull hitem hrest ih =>
      rw [List.length_cons] at hroom ⊢
      obtain ⟨hblock, hnext⟩ := block_of_pull hpull hitem
      rw [next64_of_lt (by omega)] at hnext
      obtain ⟨hblocks, hbehind⟩ := ih (by omega)
      rw [List.map_cons, hblock, hblocks, hnext, List.range'_succ]
      exact ⟨rfl, by omega⟩

/-- What was polled before the batches stays polled. -/
theorem polled_suffix (h : Delivers answers patience f batches g) : f.polled <:+ g.polled := by
  induction h with
  | nil f => exact List.suffix_rfl
  | cons hpull hitem hrest ih =>
      exact (polled_suffix_of_pull hpull).trans ih

/-- Some of the batches come first, and then the others. -/
theorem split {more : List Batch} (h : Delivers answers patience f (batches ++ more) g) :
    ∃ between, Delivers answers patience f batches between ∧
      Delivers answers patience between more g := by
  induction batches generalizing f with
  | nil => exact ⟨f, .nil f, h⟩
  | cons batch batches ih =>
      cases h with
      | cons hpull hitem hrest =>
          obtain ⟨between, hfirst, hthen⟩ := ih hrest
          exact ⟨between, .cons hpull hitem hfirst, hthen⟩

end Delivers

end Feed

namespace Command

variable {σ : Type} (source : Source) (display : Display σ) {patience : Nat}

/-! ## The loop -/

/-- What a display writes for several batches that are fed to a pool in turn, and where the pool and
the display are behind them. -/
def showAll (display : Display σ) : Pool → σ → List Batch → List Piece × Pool × σ
  | pool, kept, [] => ([], pool, kept)
  | pool, kept, batch :: batches =>
    let (pool, applied) := (pool.onLogs batch.logs).value
    let (written, kept) := display kept pool batch applied
    let (more, last) := showAll display pool kept batches
    (written ++ more, last)

/-- A run is not interrupted before its feed has come to where this one stands. -/
def QuietUntil (interrupted : Feed → Bool) (g : Feed) : Prop :=
  ∀ f : Feed, f.polled <:+ g.polled → interrupted f = false

theorem QuietUntil.mono {interrupted : Feed → Bool} {f g : Feed} (h : QuietUntil interrupted g)
    (hsuffix : f.polled <:+ g.polled) : QuietUntil interrupted f :=
  fun before hbefore => h before (hbefore.trans hsuffix)

/-- A run that is not interrupted goes on as long as blocks are left. -/
theorem stops_eq_false {source : Source} {feed : Feed} {left : Option Nat}
    (hquiet : source.interrupted feed = false) (hleft : left ≠ some 0) :
    source.stops feed left = false := by
  simp [Source.stops, hquiet, hleft]

/-- A run of which something was written before. -/
def Followed.behind (written : List Piece) (run : Followed σ) : Followed σ :=
  { run with written := written ++ run.written }

/-- The pool is fed the logs of all batches in turn. -/
theorem pool_showAll (pool : Pool) (kept : σ) (batches : List Batch) :
    (showAll display pool kept batches).2.1 =
      (pool.onLogs (batches.flatMap Batch.logs)).value.1 := by
  induction batches generalizing pool kept with
  | nil => rfl
  | cons batch batches ih =>
      rw [List.flatMap_cons, Pool.onLogs_append]
      exact ih _ _

/-- Nothing comes in time: the run is given up. -/
theorem follow_of_none {f : Follower σ}
    (hpull : (f.feed.pull source.answers source.patience).value = none) (items : Nat)
    (left : Option Nat) :
    (follow source display items left f).value = ⟨f, [], .givenUp⟩ := by
  cases items with
  | zero => rfl
  | succ items =>
      rw [follow, Traced.value_bind, hpull]
      rfl

/-- The run was interrupted or no block is left: what comes is dropped, and the run is complete. -/
theorem follow_of_done {pool : Pool} {feed : Feed} {kept : σ} {p : Pulled} {left : Option Nat}
    (hpull : (feed.pull source.answers source.patience).value = some p)
    (hstops : source.stops p.feed left = true) (items : Nat) :
    (follow source display (items + 1) left ⟨pool, feed, kept⟩).value =
      ⟨⟨pool, p.feed, kept⟩, [], .complete⟩ := by
  rw [follow, Traced.value_bind, hpull]
  simp only [hstops, if_true]
  rfl

/-- A failure comes where it is wanted: the run ends with it. -/
theorem follow_of_failure {pool : Pool} {feed : Feed} {kept : σ} {p : Pulled} {fault : Fault}
    {left : Option Nat} (hpull : (feed.pull source.answers source.patience).value = some p)
    (hitem : p.item = .error fault) (hgoes : source.stops p.feed left = false) (items : Nat) :
    (follow source display (items + 1) left ⟨pool, feed, kept⟩).value =
      ⟨⟨pool, p.feed, kept⟩, [], .failed fault⟩ := by
  rw [follow, Traced.value_bind, hpull]
  simp only [hitem, hgoes, Bool.false_eq_true, if_false]
  rfl

/-- A batch comes where it is wanted: it is fed to the pool and shown, and the run goes on with one
block less, if there is a bound. -/
theorem follow_of_wanted {pool : Pool} {feed : Feed} {kept : σ} {p : Pulled} {batch : Batch}
    {left : Option Nat} (hpull : (feed.pull source.answers source.patience).value = some p)
    (hitem : p.item = .ok batch) (hgoes : source.stops p.feed left = false) (items : Nat) :
    (follow source display (items + 1) left ⟨pool, feed, kept⟩).value =
      let fed := (pool.onLogs batch.logs).value
      let shown := display kept fed.1 batch fed.2
      .behind shown.1
        (follow source display items (left.map prev64) ⟨fed.1, p.feed, shown.2⟩).value := by
  rw [follow, Traced.value_bind, hpull]
  simp only [hitem, hgoes, Bool.false_eq_true, if_false]
  rfl

/-- A batch comes and blocks are left: the batch is fed to the pool and shown, and the run goes on
with one block less. -/
theorem follow_of_batch {pool : Pool} {feed : Feed} {kept : σ} {p : Pulled} {batch : Batch}
    (hpull : (feed.pull source.answers source.patience).value = some p)
    (hitem : p.item = .ok batch) (hquiet : source.interrupted p.feed = false) (items left : Nat) :
    (follow source display (items + 1) (some (left + 1)) ⟨pool, feed, kept⟩).value =
      let fed := (pool.onLogs batch.logs).value
      let shown := display kept fed.1 batch fed.2
      .behind shown.1
        (follow source display items (some left) ⟨fed.1, p.feed, shown.2⟩).value := by
  have hgoes : source.stops p.feed (some (left + 1)) = false := stops_eq_false hquiet nofun
  rw [follow_of_wanted source display hpull hitem hgoes, Option.map_some, prev64_succ]

/-- The loop while batches come and blocks are left: the batches are fed to the pool and shown, and
the bound sinks by as many. -/
theorem follow_delivered {feed g : Feed} {batches : List Batch}
    (h : Feed.Delivers source.answers patience feed batches g)
    (hpatience : patience ≤ source.patience) (hquiet : QuietUntil source.interrupted g)
    (pool : Pool) (kept : σ) (items left : Nat) :
    (follow source display (batches.length + items) (some (batches.length + left))
        ⟨pool, feed, kept⟩).value =
      let shown := showAll display pool kept batches
      .behind shown.1
        (follow source display items (some left) ⟨shown.2.1, g, shown.2.2⟩).value := by
  induction h generalizing pool kept with
  | nil f =>
      rw [List.length_nil, Nat.zero_add, Nat.zero_add]
      rfl
  | @cons f g p batch batches hpull hitem hrest ih =>
      have hcame : source.interrupted p.feed = false := hquiet p.feed hrest.polled_suffix
      rw [List.length_cons, Nat.add_right_comm _ 1 items, Nat.add_right_comm _ 1 left,
        follow_of_batch source display (Feed.pull_of_le hpull hpatience) hitem hcame]
      simp only [ih hquiet, Followed.behind, showAll, List.append_assoc]

/-- If the item behind the batches comes, it is dropped and the run is complete. -/
theorem complete_of_delivered {feed g : Feed} {batches : List Batch} {p : Pulled}
    (h : Feed.Delivers source.answers patience feed batches g)
    (hpatience : patience ≤ source.patience) (hquiet : QuietUntil source.interrupted g)
    (hpull : (g.pull source.answers source.patience).value = some p) (pool : Pool) (kept : σ)
    {items : Nat} (hitems : batches.length < items) :
    (follow source display items (some batches.length) ⟨pool, feed, kept⟩).value =
      let shown := showAll display pool kept batches
      ⟨⟨shown.2.1, p.feed, shown.2.2⟩, shown.1, .complete⟩ := by
  obtain ⟨more, rfl⟩ := Nat.exists_eq_add_of_lt hitems
  have hstops : source.stops p.feed (some 0) = true := Bool.or_true _
  refine (follow_delivered source display h hpatience hquiet pool kept (more + 1) 0).trans ?_
  simp only [follow_of_done source display hpull hstops, Followed.behind, List.append_nil]

/-- If the item behind the batches is a failure and is still wanted, the run ends with it. -/
theorem failed_of_delivered {feed g : Feed} {batches : List Batch} {p : Pulled} {fault : Fault}
    (h : Feed.Delivers source.answers patience feed batches g)
    (hpatience : patience ≤ source.patience)
    (hpull : (g.pull source.answers source.patience).value = some p)
    (hitem : p.item = .error fault) (hquiet : QuietUntil source.interrupted p.feed) (pool : Pool)
    (kept : σ) {items : Nat} {left : Option Nat} (hitems : batches.length < items)
    (hleft : ∀ n, left = some n → batches.length < n) :
    (follow source display items left ⟨pool, feed, kept⟩).value =
      let shown := showAll display pool kept batches
      ⟨⟨shown.2.1, p.feed, shown.2.2⟩, shown.1, .failed fault⟩ := by
  induction h generalizing pool kept items left with
  | nil f =>
      obtain ⟨more, rfl⟩ := Nat.exists_eq_add_one.mpr hitems
      have hwanted : left ≠ some 0 := fun h => absurd (hleft 0 h) (Nat.lt_irrefl 0)
      have hcame : source.interrupted p.feed = false := hquiet p.feed List.suffix_rfl
      exact follow_of_failure source display hpull hitem (stops_eq_false hcame hwanted) more
  | @cons f g q batch batches hfirst hbatch hrest ih =>
      rw [List.length_cons] at hitems hleft
      obtain ⟨more, rfl⟩ := Nat.exists_eq_add_one.mpr (Nat.zero_lt_of_lt hitems)
      have hwanted : left ≠ some 0 := fun h => absurd (hleft 0 h) (Nat.not_lt_zero _)
      have hless : ∀ n, left.map prev64 = some n → batches.length < n := by
        intro n hn
        obtain ⟨bound, hbound, rfl⟩ := Option.map_eq_some_iff.mp hn
        obtain ⟨m, rfl⟩ := Nat.exists_eq_add_one.mpr (Nat.zero_lt_of_lt (hleft bound hbound))
        rw [prev64_succ]
        exact Nat.lt_of_succ_lt_succ (hleft _ hbound)
      have hbefore : q.feed.polled <:+ p.feed.polled :=
        hrest.polled_suffix.trans (Feed.polled_suffix_of_pull hpull)
      have hgoes : source.stops q.feed left = false :=
        stops_eq_false (hquiet q.feed hbefore) hwanted
      rw [follow_of_wanted source display (Feed.pull_of_le hfirst hpatience) hbatch hgoes]
      simp only [ih hpull _ _ (Nat.lt_of_succ_lt_succ hitems) hless, Followed.behind, showAll]

/-- If the item behind the batches does not come in time, the run is given up. -/
theorem givenUp_of_delivered {feed g : Feed} {batches : List Batch}
    (h : Feed.Delivers source.answers patience feed batches g)
    (hquiet : QuietUntil source.interrupted g)
    (hnone : (g.pull source.answers source.patience).value = none) (pool : Pool) (kept : σ)
    (items : Nat) :
    (follow source display items (some batches.length) ⟨pool, feed, kept⟩).value.ending =
      .givenUp := by
  induction h generalizing pool kept items with
  | nil f => rw [follow_of_none source display hnone]
  | @cons f g p batch batches hpull hitem hrest ih =>
      have hpull' := Feed.pull_of_waits hpull source.patience
      have hcame : source.interrupted p.feed = false := hquiet p.feed hrest.polled_suffix
      cases items with
      | zero => rfl
      | succ items =>
          split at hpull'
          · rw [List.length_cons, follow_of_batch source display hpull' hitem hcame]
            exact ih hquiet hnone _ _ _
          · rw [follow_of_none source display hpull']

/-- What holds of every piece that a display writes for a block, holds of every piece that a run
writes. -/
theorem forall_mem_written_follow {P : Piece → Prop}
    (h : ∀ kept pool batch applied, ∀ piece ∈ (display kept pool batch applied).1, P piece)
    (items : Nat) (left : Option Nat) (f : Follower σ) :
    ∀ piece ∈ (follow source display items left f).value.written, P piece := by
  induction items generalizing left f with
  | zero => exact List.forall_mem_nil _
  | succ items ih =>
      cases hpull : (f.feed.pull source.answers source.patience).value with
      | none =>
          rw [follow_of_none source display hpull]
          exact List.forall_mem_nil _
      | some p =>
          cases hstops : source.stops p.feed left with
          | true =>
              rw [follow_of_done source display hpull hstops]
              exact List.forall_mem_nil _
          | false =>
              cases hitem : p.item with
              | error fault =>
                  rw [follow_of_failure source display hpull hitem hstops]
                  exact List.forall_mem_nil _
              | ok batch =>
                  rw [follow_of_wanted source display hpull hitem hstops]
                  exact List.forall_mem_append.mpr ⟨h _ _ _ _, ih _ _⟩

/-- Two runs that differ at most in what their displays keep, and that is related. -/
structure Followed.Alike {τ : Type} (R : Pool → σ → τ → Prop) (run : Followed σ)
    (other : Followed τ) : Prop where
  pool : run.follower.pool = other.follower.pool
  feed : run.follower.feed = other.follower.feed
  kept : R run.follower.pool run.follower.display other.follower.display
  written : run.written = other.written
  ending : run.ending = other.ending

/-- Displays that write the same for a block and keep what is related, do so in a whole run. -/
theorem follow_alike {τ : Type} {other : Display τ} {R : Pool → σ → τ → Prop}
    (hblock : ∀ pool kept kept' batch, R pool kept kept' →
      let fed := (pool.onLogs batch.logs).value
      let shown := display kept fed.1 batch fed.2
      let shown' := other kept' fed.1 batch fed.2
      shown.1 = shown'.1 ∧ R fed.1 shown.2 shown'.2)
    (items : Nat) (left : Option Nat) {pool : Pool} (feed : Feed) {kept : σ} {kept' : τ}
    (h : R pool kept kept') :
    (follow source display items left ⟨pool, feed, kept⟩).value.Alike R
      (follow source other items left ⟨pool, feed, kept'⟩).value := by
  induction items generalizing left pool feed kept kept' with
  | zero => exact ⟨rfl, rfl, h, rfl, rfl⟩
  | succ items ih =>
      cases hpull : (feed.pull source.answers source.patience).value with
      | none =>
          rw [follow_of_none source display hpull, follow_of_none source other hpull]
          exact ⟨rfl, rfl, h, rfl, rfl⟩
      | some p =>
          cases hstops : source.stops p.feed left with
          | true =>
              rw [follow_of_done source display hpull hstops,
                follow_of_done source other hpull hstops]
              exact ⟨rfl, rfl, h, rfl, rfl⟩
          | false =>
              cases hitem : p.item with
              | error fault =>
                  rw [follow_of_failure source display hpull hitem hstops,
                    follow_of_failure source other hpull hitem hstops]
                  exact ⟨rfl, rfl, h, rfl, rfl⟩
              | ok batch =>
                  rw [follow_of_wanted source display hpull hitem hstops,
                    follow_of_wanted source other hpull hitem hstops]
                  obtain ⟨hwritten, hkept⟩ := hblock pool kept kept' batch h
                  have hrest := ih (left.map prev64) p.feed hkept
                  exact ⟨hrest.pool, hrest.feed, hrest.kept,
                    congrArg₂ _ hwritten hrest.written, hrest.ending⟩

/-! ## The commands -/

/-- A run fails before anything is written, or a command is run on a pool in which no order is
open yet. -/
theorem run_cases (o : Options) (colored : Bool) (s : Session) :
    (∃ calls fault, (run o colored s).value = .failed calls fault) ∨
      ∃ calls pool, pool.nesting = .idle ∧
        (run o colored s).value = (runOn o colored s calls pool).value := by
  unfold run
  simp only
  split
  next source destination _ _ =>
    split
    next chainId block _ _ =>
      unfold runFrom
      simp only [Traced.value_bind]
      split
      next => exact .inl ⟨_, _, rfl⟩
      next pool hpool =>
        split
        next => exact .inr ⟨_, pool, Registry.idle_of_getPool_new hpool, rfl⟩
        next => exact .inl ⟨_, _, rfl⟩
    next => exact .inl ⟨_, _, rfl⟩
    next => exact .inl ⟨_, _, rfl⟩
  next => exact .inl ⟨_, _, rfl⟩

/-- What the two commands come to from a book on, with a bound of as many blocks as there are
batches. -/
structure BoundKept (colored : Bool) (depth : Option Nat) (pool : Pool) (initial : Book)
    (answers : Feed → PollAnswer) (interrupted : Feed → Bool) (patience : Nat)
    (batches : List Batch) (g : Feed) : Prop where
  /-- The batches are of the blocks behind the book. -/
  blocks : batches.map (fun b => b.instant.block) = List.range' (initial.block + 1) batches.length
  /-- They are fed to the pool in order, each of them once, whatever the display. When the first of
  them are fed, the bound stands at the number of the others. -/
  fed : ∀ (σ : Type) (display : Display σ) kept q limit items fst rest,
    patience ≤ q → batches = fst ++ rest →
      ∃ between, Feed.Delivers answers patience (Feed.start (initial.block + 1)) fst between ∧
        let source : Source := ⟨answers, q, limit, interrupted⟩
        let shown := showAll display pool kept fst
        (follow source display (fst.length + items) (some batches.length)
            ⟨pool, Feed.start (initial.block + 1), kept⟩).value =
          .behind shown.1 (follow source display items (some rest.length)
            ⟨shown.2.1, between, shown.2.2⟩).value
  /-- As long as nothing comes for the block behind the last one, neither command ends. -/
  waits : ∀ q limit, (g.pull answers q).value = none →
    let source : Source := ⟨answers, q, limit, interrupted⟩
    (trace colored source (some batches.length) pool initial).value.ending = .givenUp ∧
      (live colored source depth (some batches.length) pool initial).value.ending = .givenUp
  /-- When something comes for that block, it was polled for it. -/
  polled : ∀ q p, (g.pull answers q).value = some p →
    p.feed.polled =
      List.replicate (p.waits + 1) (initial.block + batches.length + 1) ++ g.polled
  /-- Whatever it is that comes, the listing of events ends. The pool is as the batches left it, and
  what was written tells of them alone. -/
  traced : ∀ q limit p, patience ≤ q → batches.length < limit → (g.pull answers q).value = some p →
    let fed := (pool.onLogs (batches.flatMap Batch.logs)).value.1
    let events := showAll (Listing.display colored) pool 0 batches
    (trace colored ⟨answers, q, limit, interrupted⟩ (some batches.length) pool initial).value =
      ⟨⟨fed, p.feed, events.2.2⟩, showBook colored " Initial Book " initial ++ events.1 ++
        finalBook colored .complete fed, .complete⟩
  /-- And so does the live view. -/
  shown : ∀ q limit p, patience ≤ q → batches.length < limit → (g.pull answers q).value = some p →
    let fed := (pool.onLogs (batches.flatMap Batch.logs)).value.1
    let screens := showAll (liveDisplay colored depth) pool () batches
    (live colored ⟨answers, q, limit, interrupted⟩ depth (some batches.length) pool initial).value =
      ⟨⟨fed, p.feed, ()⟩, [.screen .enterAlternate, .screen .clear, .screen .home] ++ screens.1 ++
        leaveScreen .complete, .complete⟩

/-- **The bound on the blocks followed.** A command follows a market from a book of block `b` with a
bound of `n` blocks, `n` batches come from the feed behind `b`, each within some patience, and
nobody interrupts the command until then. Then the batches are of the blocks `b + 1` to `b + n`, and
they are fed to the pool in order, each of them once. The bound sinks by one with each and is never
taken below zero. As long as nothing comes for block `b + n + 1`, neither command ends; when
something comes for it, be it a failure, that block was polled for it, and both commands end with
the pool as the batches left it. -/
theorem numBlocks_run (colored : Bool) (depth : Option Nat) (pool : Pool) (initial : Book)
    {answers : Feed → PollAnswer} {interrupted : Feed → Bool} {patience : Nat}
    {batches : List Batch} {g : Feed}
    (hroom : initial.block + batches.length + 1 < 0x10000000000000000)
    (hbatches : Feed.Delivers answers patience (Feed.start (initial.block + 1)) batches g)
    (hquiet : QuietUntil interrupted g) :
    BoundKept colored depth pool initial answers interrupted patience batches g := by
  have hstart : next64 initial.block = initial.block + 1 := next64_of_lt (by omega)
  obtain ⟨hblocks, hnext⟩ := hbatches.blocks (by simp only [Feed.start]; omega)
  refine ⟨hblocks, ?fed, ?waits, ?polled, ?traced, ?shown⟩
  case fed =>
    rintro σ display kept q limit items fst rest hq rfl
    obtain ⟨between, hfst, hrest⟩ := hbatches.split
    refine ⟨between, hfst, ?_⟩
    simp only [List.length_append]
    exact follow_delivered ⟨answers, q, limit, interrupted⟩ display hfst hq
      (hquiet.mono hrest.polled_suffix) pool kept items rest.length
  case waits =>
    intro q limit hnone source
    simp only [trace, live, hstart]
    exact ⟨givenUp_of_delivered source _ hbatches hquiet hnone pool 0 limit,
      givenUp_of_delivered source _ hbatches hquiet hnone pool () limit⟩
  case polled =>
    intro q p hpull
    rw [Feed.polled_of_pull hpull, hnext, Nat.add_right_comm]
    rfl
  case traced =>
    intro q limit p hq hlimit hpull
    have hrun := complete_of_delivered ⟨answers, q, limit, interrupted⟩ (Listing.display colored)
      hbatches hq hquiet hpull pool 0 hlimit
    simp only [trace, hstart, Traced.value_bind, hrun, pool_showAll]
    rfl
  case shown =>
    intro q limit p hq hlimit hpull
    have hrun := complete_of_delivered ⟨answers, q, limit, interrupted⟩ (liveDisplay colored depth)
      hbatches hq hquiet hpull pool () hlimit
    simp only [live, hstart, Traced.value_bind, hrun, pool_showAll]
    rfl

/-- One block is wanted. It is missing at the first poll and then there, and so is the block behind
it. -/
theorem numBlocks_run_one_block :
    let market : Market := ⟨0xaa, 0xbb, 1⟩
    let initial := Book.empty 900
    let pool := (Pool.new "mangrove" .arbitrum market .default).restart 900 initial
    let answers : Feed → PollAnswer := fun f =>
      match f.polled with
      | [] => ⟨.ok none, .ok []⟩
      | _ => ⟨.ok (some 100), .ok []⟩
    let never : Feed → Bool := fun _ => false
    let followed := (trace false ⟨answers, 2, 2, never⟩ (some 1) pool initial).value
    900 + 1 + 1 < 0x10000000000000000 ∧ followed.ending = .complete ∧
      followed.follower.pool = pool ∧ followed.follower.feed.polled = [902, 901, 901] := by
  intro market initial pool answers never followed
  have hlogs : (Feed.canonical []).value = [] := List.mergeSort_nil
  have hbatches : Feed.Delivers answers 2 (Feed.start 901) [⟨⟨901, 100⟩, []⟩]
      ⟨902, [901, 901]⟩ := by
    rw [← hlogs]
    exact .cons rfl rfl (.nil _)
  have hquiet : QuietUntil never ⟨902, [901, 901]⟩ := fun _ _ => rfl
  have hkept := numBlocks_run false none pool initial (by decide) hbatches hquiet
  have htraced := hkept.traced 2 2 _ (by decide) (by decide) rfl
  rw [show followed = _ from htraced]
  exact ⟨by decide, rfl, rfl, hkept.polled 2 _ rfl⟩

/-- With no block wanted at all, the block behind the book is polled still; and if it is never
there, the command does not end. -/
theorem numBlocks_zero_polls :
    let market : Market := ⟨0xaa, 0xbb, 1⟩
    let initial := Book.empty 900
    let pool := (Pool.new "mangrove" .arbitrum market .default).restart 900 initial
    let there : Feed → PollAnswer := fun _ => ⟨.ok (some 100), .ok []⟩
    let missing : Feed → PollAnswer := fun _ => ⟨.ok none, .ok []⟩
    let never : Feed → Bool := fun _ => false
    (trace false ⟨there, 1, 1, never⟩ (some 0) pool initial).value.follower.feed.polled = [901] ∧
      ¬ ∃ q limit, (trace false ⟨missing, q, limit, never⟩ (some 0) pool initial).value.ending =
        .complete := by
  intro market initial pool there missing never
  refine ⟨rfl, ?_⟩
  rintro ⟨q, limit, hcomplete⟩
  have hnone : ((Feed.start 901).pull missing q).value = none :=
    Feed.pull_of_never (fun _ _ => rfl) rfl q
  have hrun := follow_of_none ⟨missing, q, limit, never⟩ (Listing.display false)
    (f := ⟨pool, Feed.start 901, 0⟩) hnone limit (some 0)
  cases (congrArg Followed.ending hrun).symm.trans hcomplete

end Command

end OfferBook
