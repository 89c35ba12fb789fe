import Mathlib.Data.List.Chain
import Mathlib.Data.Prod.Basic
import OfferBook.Proofs.Run

/-!
# What a pool keeps track of

Besides its snapshots a pool remembers the block of its seeding, the position of the last log it
took into account and the orders that are open. These are written at different places: by a
successful attempt to seed the pool, by every accepted log and by those that have an index, or
carry an event. `Bookkeeping` says how they fit together nevertheless, in whatever way seeding
failed and whatever the logs were.

The argument has one idea. An accepted log stands behind the seeding and not before the latest
snapshot, and it leaves a snapshot of its own block; so whatever is noted of it lies behind the
seeding and not behind the latest block.

Of the positions of the logs it took into account a pool remembers only the last one, and an
accepted log is compared with that one alone. `takenSince` keeps them all, beside the pool. Each
lies behind the one in front of it, and positions can be compared through others, so they increase
over the whole time since the seeding.

## Main results

* `bookkeeping_run`: every run of a new pool leaves its notes consistent.
* `takenInOrder_run`: the positions that a run takes into account are in order.
* `NotesConsistent`, `notes_consistent_run`: what a pool knows after any run, and how its parts fit
  together.
-/

namespace OfferBook.Pool

variable {p : Pool} {taken : List (Nat × Nat)}

/-- The notes of a pool fit its snapshots. -/
structure Bookkeeping (p : Pool) : Prop where
  wf : p.history.Wf
  /-- A pool that was never seeded knows nothing. -/
  unseeded : p.seededAt = none →
    p.history.snapshots = [] ∧ p.lastLog = none ∧ p.nesting = .idle
  /-- A seeded pool has a snapshot, and none from before its seeding. -/
  seeded : ∀ seed, p.seededAt = some seed →
    p.history.snapshots ≠ [] ∧ ∀ b ∈ p.history.snapshots, seed ≤ b.block
  /-- The last log stands behind the seeding and not behind the latest snapshot. -/
  lastLog : ∀ last, p.lastLog = some last → ∃ seed latest, p.seededAt = some seed ∧
    p.latest? = some latest ∧ seed < last.1 ∧ last.1 ≤ latest.block
  /-- Orders are open only behind the seeding. -/
  nesting : p.nesting ≠ .idle → ∃ seed latest, p.seededAt = some seed ∧
    p.latest? = some latest ∧ seed < latest.block

theorem bookkeeping_new (dex : String) (d : Deployment) (m : Market) (c : PoolConfig) :
    (new dex d m c).Bookkeeping where
  wf := History.wf_new _
  unseeded := fun _ => ⟨rfl, rfl, rfl⟩
  seeded := by
    intro seed h
    cases h
  lastLog := by
    intro last h
    cases h
  nesting := fun h => absurd rfl h

/-- A pool with a snapshot was seeded. -/
theorem Bookkeeping.seededAt_of_latest? (h : p.Bookkeeping) {latest : Book}
    (hl : p.latest? = some latest) : ∃ seed, p.seededAt = some seed ∧ seed ≤ latest.block := by
  have hmem : latest ∈ p.history.snapshots := List.mem_of_head? hl
  cases hs : p.seededAt with
  | none =>
      rw [(h.unseeded hs).1] at hmem
      cases hmem
  | some seed => exact ⟨seed, rfl, (h.seeded seed hs).2 latest hmem⟩

theorem bookkeeping_onLog (h : p.Bookkeeping) (log : Log) :
    (p.onLog log).value.pool.Bookkeeping := by
  rcases p.refuses_or_accepts log with hrefuses | ⟨latest, block, haccepts⟩
  · rw [onLog_of_refuses hrefuses]
    exact h
  · obtain ⟨seed, hseed, -⟩ := h.seededAt_of_latest? haccepts.latest_eq
    obtain ⟨hle, hbehind, -⟩ := reflects_eq_false_iff.mp haccepts.fresh
    have hlt : seed < block := hbehind seed hseed
    have hframe := onLog_frame p log
    have hafter : (p.onLog log).value.pool.seededAt = some seed := hframe.seededAt.trans hseed
    have hfed := onLog_of_accepts h.wf haccepts
    have hlatest : (p.onLog log).value.pool.latest? =
        some ((p.outcome log latest).book.atBlock block) := by
      rw [latest?, hfed, history_noteLast]
      exact History.latest?_insert _ _
    refine
      { wf := wf_onLog h.wf log
        unseeded := ?_
        seeded := ?_
        lastLog := ?_
        nesting := ?_ }
    · intro hnone
      rw [hafter] at hnone
      cases hnone
    · intro seed' hseed'
      obtain rfl : seed = seed' := Option.some.inj (hafter.symm.trans hseed')
      refine ⟨?_, ?_⟩
      · intro hnil
        rw [latest?, History.latest?, hnil] at hlatest
        cases hlatest
      · intro b hb
        rw [hfed, history_noteLast] at hb
        rcases History.mem_snapshots_insert hb with rfl | hb
        · exact Nat.le_of_lt hlt
        · exact (h.seeded seed hseed).2 b hb
    · intro last hlast
      refine ⟨seed, _, hafter, hlatest, ?_⟩
      show seed < last.1 ∧ last.1 ≤ block
      rw [hfed, lastLog_noteLast] at hlast
      cases hpos : log.position? with
      | some here =>
          obtain rfl : here = last := by simpa [hpos] using hlast
          have hblock := haccepts.placed.symm.trans (Log.block_of_position? hpos)
          obtain rfl : block = here.1 := Option.some.inj hblock
          exact ⟨hlt, Nat.le_refl here.1⟩
      | none =>
          obtain ⟨seed', latest', hs, hl, hlow, hhigh⟩ :=
            h.lastLog last (by simpa [hpos] using hlast)
          obtain rfl : seed = seed' := Option.some.inj (hseed.symm.trans hs)
          obtain rfl : latest = latest' := Option.some.inj (haccepts.latest_eq.symm.trans hl)
          omega
    · intro _
      exact ⟨seed, _, hafter, hlatest, hlt⟩

theorem bookkeeping_act (h : p.Bookkeeping) (a : Action) : (p.act a).Bookkeeping := by
  cases a with
  | feed log => exact bookkeeping_onLog h log
  | seed r block =>
      rcases p.seed_cases r block with ⟨b, hfetch, hseeded⟩ | ⟨fault, failed, -, hseeded⟩
      · rw [act, hseeded]
        have hsnapshots : (p.restart block b).history.snapshots = [b] :=
          History.snapshots_insert_clear p.history b
        refine
          { wf := History.wf_insert (History.wf_clear _) b
            unseeded := ?_
            seeded := ?_
            lastLog := ?_
            nesting := fun hne => absurd rfl hne }
        · intro hnone
          cases hnone
        · intro seed hseed
          obtain rfl : block = seed := Option.some.inj hseed
          rw [hsnapshots]
          refine ⟨List.cons_ne_nil _ _, fun t ht => ?_⟩
          rw [List.mem_singleton.mp ht]
          exact Nat.le_of_eq (Fetcher.block_tryFetch hfetch).symm
        · intro last hlast
          cases hlast
      · rw [act, hseeded]
        exact ⟨h.wf, h.unseeded, h.seeded, h.lastLog, h.nesting⟩

/-- Every run of a new pool leaves its notes consistent. -/
theorem bookkeeping_run (h : p.Bookkeeping) (actions : List Action) :
    (p.run actions).Bookkeeping := by
  induction actions generalizing p with
  | nil => exact h
  | cons a rest ih =>
      rw [run_cons]
      exact ih (bookkeeping_act h a)

/-! ## Once seeded -/

/-- Only a pool that was never seeded has no snapshot. -/
theorem Bookkeeping.seededAt_eq_none_iff (h : p.Bookkeeping) :
    p.seededAt = none ↔ p.history.snapshots = [] := by
  constructor
  · exact fun hnone => (h.unseeded hnone).1
  · intro hempty
    cases hseed : p.seededAt with
    | none => rfl
    | some seed => exact absurd hempty (h.seeded seed hseed).1

/-- A pool that was seeded stays so, whatever becomes of later attempts. -/
theorem seededAt_act (h : p.seededAt ≠ none) (a : Action) : (p.act a).seededAt ≠ none := by
  cases a with
  | feed log => rwa [act, (onLog_frame p log).seededAt]
  | seed r block =>
      rcases p.seed_cases r block with ⟨b, -, hseeded⟩ | ⟨fault, failed, -, hseeded⟩
      · rw [act, hseeded]
        exact Option.some_ne_none block
      · rw [act, hseeded]
        exact h

theorem seededAt_run (h : p.seededAt ≠ none) (actions : List Action) :
    (p.run actions).seededAt ≠ none := by
  induction actions generalizing p with
  | nil => exact h
  | cons a rest ih =>
      rw [run_cons]
      exact ih (seededAt_act h a)

/-! ## The positions taken into account -/

instance (p : Pool) (log : Log) : Decidable (p.Refuses log) :=
  decidable_of_iff (∀ block ∈ log.block, ∀ latest ∈ p.latest?,
      ¬ (log.removed = false ∧ p.reflects latest block log.position? = false))
    ⟨fun h latest block hacc =>
        h block hacc.placed latest hacc.latest_eq ⟨hacc.standing, hacc.fresh⟩,
      fun h block hblock latest hlatest hlog => h latest block ⟨hblock, hlog.1, hlatest, hlog.2⟩⟩

/-- The positions that a pool has taken into account since it was last seeded, after one more
action. A successful attempt to seed the pool forgets them all, a failed one leaves them, and a log
that is not refused adds its own, if it has one. -/
def takenBy (p : Pool) (taken : List (Nat × Nat)) : Action → List (Nat × Nat)
  | .seed r block => if (p.seed r block).value.2.isNone then [] else taken
  | .feed log => if p.Refuses log then taken else taken ++ log.position?.toList

/-- The positions that a pool has taken into account since it was last seeded, after a run. -/
def takenSince (p : Pool) (taken : List (Nat × Nat)) : List Action → List (Nat × Nat)
  | [] => taken
  | a :: rest => (p.act a).takenSince (p.takenBy taken a) rest

/-- The positions increase from each to the next, and the last one is what the pool remembers. -/
structure TakenInOrder (p : Pool) (taken : List (Nat × Nat)) : Prop where
  chain : taken.IsChain (Prod.Lex (· < ·) (· < ·))
  last : taken.getLast? = p.lastLog

theorem takenInOrder_act (hw : p.history.Wf) (h : p.TakenInOrder taken) (a : Action) :
    (p.act a).TakenInOrder (p.takenBy taken a) := by
  cases a with
  | seed r block =>
      rcases p.seed_cases r block with ⟨b, -, hseeded⟩ | ⟨fault, failed, -, hseeded⟩
      · rw [act, takenBy, hseeded]
        exact ⟨.nil, rfl⟩
      · rw [act, takenBy, hseeded]
        exact ⟨h.chain, h.last⟩
  | feed log =>
      rcases p.refuses_or_accepts log with hrefuses | ⟨latest, block, haccepts⟩
      · rw [act, onLog_of_refuses hrefuses, takenBy, if_pos hrefuses]
        exact h
      · have hnot : ¬ p.Refuses log := fun hrefuses => hrefuses latest block haccepts
        have hlast : (p.onLog log).value.pool.lastLog = log.position?.or p.lastLog := by
          rw [onLog_of_accepts hw haccepts, lastLog_noteLast]
        rw [act, takenBy, if_neg hnot]
        cases hpos : log.position? with
        | none =>
            rw [Option.toList_none, List.append_nil]
            exact ⟨h.chain, h.last.trans (by rw [hlast, hpos, Option.none_or])⟩
        | some here =>
            have hbehind := (reflects_eq_false_iff.mp haccepts.fresh).2.2
            refine ⟨List.isChain_append.mpr ⟨h.chain, .singleton here, ?_⟩, ?_⟩
            · intro last hmem next hnext
              obtain rfl : here = next := Option.some.inj hnext
              exact positionLe_eq_false_iff.mp (hbehind here last hpos (h.last.symm.trans hmem))
            · rw [hlast, hpos]
              exact List.getLast?_concat

theorem takenInOrder_run (hw : p.history.Wf) (h : p.TakenInOrder taken) (actions : List Action) :
    (p.run actions).TakenInOrder (p.takenSince taken actions) := by
  induction actions generalizing p taken with
  | nil => exact h
  | cons a rest ih =>
      rw [run_cons, takenSince]
      exact ih (wf_act hw a) (takenInOrder_act hw h a)

/-! ## Every run -/

/-- How the notes of a pool that retains at most so many snapshots fit together, the positions that
it took into account since its last seeding being known. -/
structure NotesConsistent (p : Pool) (retained : Nat) (taken : List (Nat × Nat)) : Prop where
  /-- The pool was never seeded exactly if it has no snapshot. -/
  unseeded : p.seededAt = none ↔ p.history.isEmpty = true
  /-- The snapshots are of strictly increasing blocks, none before the seeding, and no more than may
  be retained. -/
  seeded : ∀ seed, p.seededAt = some seed → ∀ b ∈ p.history.snapshots, seed ≤ b.block
  ascending : (p.history.snapshots.reverse.map Book.block).Pairwise (· < ·)
  fits : p.history.size ≤ retained
  /-- A seeded pool has a latest snapshot from then on. -/
  latest : ∀ seed, p.seededAt = some seed →
    ∀ more, ∃ latest, (p.run more).latest? = some latest
  /-- The last log stands behind the seeding and not behind the latest snapshot. -/
  lastLog : ∀ block index, p.lastLog = some (block, index) → ∃ seed latest,
    p.seededAt = some seed ∧ p.latest? = some latest ∧ seed < block ∧ block ≤ latest.block
  /-- While an order is open, the latest snapshot is from behind the seeding. -/
  nesting : p.nesting.isIdle = false → ∃ seed latest,
    p.seededAt = some seed ∧ p.latest? = some latest ∧ seed < latest.block
  /-- The positions increase strictly, and the last of them is that of the last log. -/
  taken_lt : taken.Pairwise (Prod.Lex (· < ·) (· < ·))
  taken_last : taken.getLast? = p.lastLog

/-- **The notes of a pool are consistent, whatever happened to it.** After any attempts to seed a
new pool and any logs its notes fit together, and the positions taken into account since the last
successful attempt to seed the pool increase strictly up to that of the last log. -/
theorem notes_consistent_run (dex : String) (d : Deployment) (m : Market) (c : PoolConfig)
    (actions : List Action) :
    ((new dex d m c).run actions).NotesConsistent c.retained
      ((new dex d m c).takenSince [] actions) := by
  have hnotes : ((new dex d m c).run actions).Bookkeeping :=
    bookkeeping_run (bookkeeping_new dex d m c) actions
  have hinOrder : ((new dex d m c).run actions).TakenInOrder
      ((new dex d m c).takenSince [] actions) :=
    takenInOrder_run (History.wf_new _) ⟨.nil, rfl⟩ actions
  have hcapacity : ((new dex d m c).run actions).history.capacity = c.retained := by
    have hnew : (new dex d m c).history.capacity = max c.retained 1 := rfl
    rw [(fetcher_run _ actions).2, hnew, Nat.max_eq_left c.retained_pos]
  exact
    { unseeded := by rw [hnotes.seededAt_eq_none_iff, History.isEmpty, List.isEmpty_iff]
      seeded := fun seed hseed => (hnotes.seeded seed hseed).2
      ascending := by
        rw [List.pairwise_map, List.pairwise_reverse]
        exact hnotes.wf.descending
      fits := hcapacity ▸ hnotes.wf.fits
      latest := by
        intro seed hseed more
        have hstays : (((new dex d m c).run actions).run more).seededAt ≠ none :=
          seededAt_run (by rw [hseed]; exact Option.some_ne_none seed) more
        refine Option.ne_none_iff_exists'.mp fun hnone => hstays ?_
        exact (bookkeeping_run hnotes more).seededAt_eq_none_iff.mpr
          (List.head?_eq_none_iff.mp hnone)
      lastLog := fun block index hlast => hnotes.lastLog _ hlast
      nesting := by
        intro hopen
        refine hnotes.nesting fun hidle => ?_
        rw [hidle] at hopen
        cases hopen
      taken_lt := hinOrder.chain.pairwise
      taken_last := hinOrder.last }

/-- A log moves the block on without an index, so that one of an earlier block comes too late. Two
attempts fail, then the pool is seeded at an earlier block, and there the first log counts once
more, though not twice. At last an order starts. -/
theorem notes_consistent_run_seeded_earlier :
    let market : Market := ⟨0xaa, 0xbb, 1⟩
    let config := PoolConfig.default.withRetained 2
    let served : InMemoryReader :=
      ⟨10, [⟨market, 0, [.usual 9 ⟨-1, by decide, by decide⟩ 5]⟩], false, false⟩
    let quiet (block : Nat) (index : Option Nat) : Action :=
      .feed ⟨0, [], [], some block, none, none, index, false⟩
    let order := ((Emitter.new market 14).emitBook .orderStart).1
    let before : List Action :=
      [.seed served.reader 10, quiet 11 (some 0), quiet 13 none, quiet 12 (some 4),
        quiet 13 (some 2), .seed { served with failing := true }.reader 14,
        .seed InMemoryReader.empty.reader 14]
    let after : List Action := [.seed served.reader 9, quiet 11 (some 0), quiet 11 (some 0)]
    let actions := before ++ after ++ [.feed order]
    let unseeded := new "mangrove" .arbitrum market config
    let p := unseeded.run before
    let q := unseeded.run actions
    (p.seededAt = some 10 ∧ p.lastLog = some (13, 2) ∧
        p.history.snapshots.map Book.block = [13, 11] ∧
        unseeded.takenSince [] before = [(11, 0), (13, 2)]) ∧
      unseeded.takenSince [] actions = [(11, 0), (14, 0)] ∧ q.lastLog = some (14, 0) ∧
      q.nesting.isIdle = false ∧ ∃ seed latest, q.seededAt = some seed ∧
        q.latest? = some latest ∧ seed < latest.block := by
  intro market config served quiet order before after actions unseeded p q
  let ready := unseeded.run (before ++ after)
  have hbefore : p.seededAt = some 10 ∧ p.lastLog = some (13, 2) ∧
      p.history.snapshots.map Book.block = [13, 11] ∧
      unseeded.takenSince [] before = [(11, 0), (13, 2)] := by
    decide +kernel
  have htaken : unseeded.takenSince [] actions = [(11, 0), (14, 0)] := by decide +kernel
  have hwf : ready.history.Wf := wf_run (History.wf_new _) _
  have hfetcher : ready.fetcher = unseeded.fetcher := (fetcher_run unseeded (before ++ after)).1
  have hmarket : ready.market = market := by
    rw [Pool.market, hfetcher]
    rfl
  have hidle : ready.nesting = .idle := by decide +kernel
  have haccepts : ready.Accepts order
      ⟨11, 0, [⟨9, ⟨⟨-1, by decide, by decide⟩, 5, none, none⟩, ⟨0xbb, 150000, 300, 3⟩⟩]⟩ 14 :=
    ⟨rfl, rfl, by decide +kernel, by decide +kernel⟩
  have hevent : order.event? market.hash = some .orderStart :=
    (Emitter.new market 14).event?_emitBook .orderStart
  have hrun : q = ready.run [.feed order] := run_append unseeded (before ++ after) [.feed order]
  have hopen : q.nesting.isIdle = false := by
    rw [hrun, run_cons, act, onLog_of_accepts hwf haccepts, run, List.foldl_nil, nesting_noteLast,
      outcome, hmarket, hevent, BookState.follow, BookState.nesting_apply, hidle]
    rfl
  have hq : (new "mangrove" .arbitrum market config).run actions = q := rfl
  have hnotes := notes_consistent_run "mangrove" .arbitrum market config actions
  -- The notes are read as those of `q`, so that nothing evaluates the run.
  rw [hq] at hnotes
  exact ⟨hbefore, htaken, hnotes.taken_last.symm.trans (congrArg List.getLast? htaken), hopen,
    hnotes.nesting hopen⟩

end OfferBook.Pool
