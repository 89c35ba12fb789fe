import OfferBook.Emitter
import OfferBook.Proofs.Run

/-!
# Seeding is all or nothing

An attempt to seed a pool succeeds, fails for the time being, or finds that the market does not
exist. When it succeeds, nothing of the pool's past is left: open orders, the last log, older
snapshots and the account of failures are gone, so that the pool is the one that a new pool would
have become. When it fails, nothing of its past is touched but for the note of the failure, and
no log is treated differently for that note.

Both hold of every pool that can come about (`Reachable`), since nothing that is done to a pool
changes what it was created with: its exchange, what it fetches and how many snapshots it retains
(`SetUpAlike`).

## Main results

* `restart_eq`: starting over forgets the past.
* `onLogs_markFailed`: logs do not look at the note of a failure.
* `seed_all_or_nothing`: what an attempt to seed a pool leaves of it.
-/

namespace OfferBook.Pool

variable {dex : String} {d : Deployment} {m : Market} {c : PoolConfig} {p q : Pool}

/-! ## Pools that can come about -/

/-- The pools that come about from a new one by attempts to seed it and by logs, and in a registry
by the account that it keeps of failures. -/
inductive Reachable (dex : String) (d : Deployment) (m : Market) (c : PoolConfig) :
    Pool → Prop where
  | new : Reachable dex d m c (new dex d m c)
  | seed {p : Pool} (h : Reachable dex d m c p) (r : Reader) (block : Nat) :
      Reachable dex d m c (p.seed r block).value.1
  | feed {p : Pool} (h : Reachable dex d m c p) (log : Log) :
      Reachable dex d m c (p.onLog log).value.pool
  | markFailed {p : Pool} (h : Reachable dex d m c p) : Reachable dex d m c p.markFailed
  | countAttempt {p : Pool} (h : Reachable dex d m c p) : Reachable dex d m c p.countAttempt

/-- The two pools were created alike: for one exchange, to fetch the same, and to retain as many
snapshots. -/
structure SetUpAlike (p q : Pool) : Prop where
  dex : p.dex = q.dex
  fetcher : p.fetcher = q.fetcher
  capacity : p.history.capacity = q.history.capacity

theorem dex_seed (p : Pool) (r : Reader) (block : Nat) : (p.seed r block).value.1.dex = p.dex := by
  rcases p.seed_cases r block with ⟨b, -, hseed⟩ | ⟨fault, failed, -, hseed⟩
  · rw [hseed, restart]
  · rw [hseed]

theorem nesting_countAttempt (p : Pool) : p.countAttempt.nesting = p.nesting := rfl

/-- Nothing that is done to a pool changes what it was created with. -/
theorem Reachable.setUpAlike (h : Reachable dex d m c p) : SetUpAlike p (Pool.new dex d m c) := by
  induction h with
  | new => exact ⟨rfl, rfl, rfl⟩
  | @seed p _ r block ih =>
      obtain ⟨hfetcher, hcapacity⟩ := fetcher_act p (.seed r block)
      exact ⟨(dex_seed p r block).trans ih.dex, hfetcher.trans ih.fetcher,
        hcapacity.trans ih.capacity⟩
  | @feed p _ log ih =>
      have hframe := onLog_frame p log
      exact ⟨hframe.dex.trans ih.dex, hframe.fetcher.trans ih.fetcher,
        hframe.capacity.trans ih.capacity⟩
  | markFailed _ ih => exact ⟨ih.dex, ih.fetcher, ih.capacity⟩
  | countAttempt _ ih => exact ⟨ih.dex, ih.fetcher, ih.capacity⟩

theorem Reachable.wf (h : Reachable dex d m c p) : p.history.Wf := by
  induction h with
  | new => exact History.wf_new _
  | seed _ r block ih => exact wf_act ih (.seed r block)
  | feed _ log ih => exact wf_onLog ih log
  | markFailed _ ih => exact ih
  | countAttempt _ ih => exact ih

/-! ## Success -/

private theorem insert_clear_eq {g g' : History} (h : g.capacity = g'.capacity) (b : Book) :
    g.clear.insert b = g'.clear.insert b := by
  obtain ⟨capacity, hpos, snapshots⟩ := g
  obtain ⟨capacity', hpos', snapshots'⟩ := g'
  obtain rfl : capacity = capacity' := h
  rfl

/-- Starting over leaves nothing of a pool but what it was created with. -/
theorem restart_eq (h : SetUpAlike p q) (block : Nat) (b : Book) :
    p.restart block b = q.restart block b := by
  rw [restart, restart, h.dex, h.fetcher, insert_clear_eq h.capacity]

/-! ## Failure -/

/-- A log does to a pool that failed what it does to any other. -/
theorem onLog_markFailed (hw : p.history.Wf) (log : Log) :
    (p.markFailed.onLog log).value =
      ⟨(p.onLog log).value.pool.markFailed, (p.onLog log).value.applied⟩ := by
  rcases p.refuses_or_accepts log with hrefuses | ⟨latest, block, haccepts⟩
  · have hrefuses' : p.markFailed.Refuses log := fun latest block hacc =>
      hrefuses latest block ⟨hacc.placed, hacc.standing, hacc.latest_eq, hacc.fresh⟩
    rw [onLog_of_refuses hrefuses, onLog_of_refuses hrefuses']
  · have haccepts' : p.markFailed.Accepts log latest block :=
      ⟨haccepts.placed, haccepts.standing, haccepts.latest_eq, haccepts.fresh⟩
    rw [onLog_of_accepts hw haccepts, onLog_of_accepts (p := p.markFailed) hw haccepts']
    cases log.position? <;> rfl

theorem onLogs_markFailed (hw : p.history.Wf) (logs : List Log) :
    (p.markFailed.onLogs logs).value =
      ((p.onLogs logs).value.1.markFailed, (p.onLogs logs).value.2) := by
  induction logs generalizing p with
  | nil => rfl
  | cons log rest ih =>
      rw [onLogs_cons, onLogs_cons, onLog_markFailed hw, ih (wf_onLog hw log)]

/-! ## Every outcome -/

/-- The fault of an attempt to seed a pool is that of fetching the book. -/
theorem fault_seed {r : Reader} {block : Nat} {fault : Fault} :
    (p.seed r block).value.2 = some fault ↔
      (p.fetcher.tryFetch r block).value = .error fault := by
  cases h : (p.fetcher.tryFetch r block).value <;> simp [seed, h]

/-- **Seeding is all or nothing, and forgets the past.** Whatever happened to a pool and whatever
the reader answers, an attempt to seed the pool has the fault, or none, that it would have on a new
pool of the same exchange, market and tuning. After a permanent fault the pool is as before. After
any other fault only the failure is noted: every block and all later logs are answered as without
the attempt. Without a fault it is in all its parts the new pool seeded in the same way, so that
all later logs have on it the effect that they have there. -/
theorem seed_all_or_nothing (h : Reachable dex d m c p) (r : Reader) (block : Nat) :
    let seeded := (p.seed r block).value
    let fresh := ((new dex d m c).seed r block).value
    seeded.2 = fresh.2 ∧
      (∀ fault, seeded.2 = some fault → fault.isPermanent = true → seeded.1 = p) ∧
      (∀ fault, seeded.2 = some fault → fault.isPermanent = false →
        seeded.1 = { p with failed := true } ∧
          (∀ n, seeded.1.stateAt? n = p.stateAt? n) ∧
          ∀ logs, (seeded.1.onLogs logs).value =
            ({ (p.onLogs logs).value.1 with failed := true }, (p.onLogs logs).value.2)) ∧
      (seeded.2 = none → seeded.1 = fresh.1 ∧
        ∀ logs, (seeded.1.onLogs logs).value = (fresh.1.onLogs logs).value) := by
  intro seeded fresh
  have halike := h.setUpAlike
  have hfaults : seeded.2 = fresh.2 := by
    refine Option.ext fun fault => ?_
    rw [fault_seed, fault_seed, halike.fetcher]
  refine ⟨hfaults, fun fault hfault hpermanent => ?_, fun fault hfault htransient => ?_,
    fun hok => ?_⟩
  · have hfetch := fault_seed.mp hfault
    exact (seed_of_error hfetch).trans (if_pos hpermanent)
  · have hfetch := fault_seed.mp hfault
    have hfailed : seeded.1 = p.markFailed :=
      (seed_of_error hfetch).trans (if_neg (by simp [htransient]))
    refine ⟨hfailed, fun n => ?_, fun logs => ?_⟩
    · rw [hfailed]
      rfl
    · rw [hfailed]
      exact onLogs_markFailed h.wf logs
  · have hsame : seeded.1 = fresh.1 := by
      cases hfetch : (p.fetcher.tryFetch r block).value with
      | error fault => cases hok.symm.trans (fault_seed.mpr hfetch)
      | ok b =>
          rw [seed_of_ok hfetch, seed_of_ok (halike.fetcher ▸ hfetch)]
          exact restart_eq halike block b
    exact ⟨hsame, fun logs => by rw [hsame]⟩

/-- An order is open, and a registry has counted a request, when the pool is seeded again: where
the market is not known, where nothing is within reach, and at an earlier block. -/
theorem seed_all_or_nothing_open_order :
    let market : Market := ⟨0xaa, 0xbb, 1⟩
    let served : InMemoryReader :=
      ⟨10, [⟨market, 0, [.usual 9 ⟨-1, by decide, by decide⟩ 5]⟩], false, false⟩
    let order := ((Emitter.new market 11).emitBook .orderStart).1
    let unseeded := new "mangrove" .arbitrum market .default
    let ready := (unseeded.seed served.reader 10).value.1
    let fed := (ready.onLog order).value.pool
    let p := fed.countAttempt
    p.nesting.depth = 1 ∧ p.attempts = 1 ∧
      (p.seed InMemoryReader.empty.reader 12).value.1 = p ∧
      (p.seed { served with failing := true }.reader 12).value.1 = { p with failed := true } ∧
      (p.seed served.reader 9).value.1 = (unseeded.seed served.reader 9).value.1 := by
  intro market served order unseeded ready fed p
  have hready : Reachable "mangrove" .arbitrum market .default ready := Reachable.new.seed _ 10
  have hreachable : Reachable "mangrove" .arbitrum market .default p :=
    (hready.feed order).countAttempt
  have hfetcher : p.fetcher = unseeded.fetcher := hreachable.setUpAlike.fetcher
  have haccepts : ready.Accepts order
      ⟨10, 0, [⟨9, ⟨⟨-1, by decide, by decide⟩, 5, none, none⟩, ⟨0xbb, 150000, 300, 3⟩⟩]⟩ 11 :=
    ⟨rfl, rfl, by decide +kernel, by decide +kernel⟩
  have hidle : ready.nesting = .idle := by decide +kernel
  have hcounted : ready.attempts = 0 := by decide +kernel
  have hmarket : ready.market = market := congrArg Fetcher.market hready.setUpAlike.fetcher
  have hevent : order.event? market.hash = some .orderStart :=
    (Emitter.new market 11).event?_emitBook .orderStart
  have hwf := hready.wf
  have hdepth : fed.nesting.depth = 1 := by
    simp only [fed]
    rw [onLog_of_accepts hwf haccepts, nesting_noteLast, outcome, hmarket, hevent]
    simp [BookState.follow, BookState.nesting_apply, Nesting.apply, hidle, Nesting.idle]
    rfl
  have hattempts : p.attempts = 1 := by
    simp only [p, countAttempt, fed, (onLog_frame ready order).attempts, hcounted]
    rfl
  have hopen : p.nesting.depth = 1 :=
    (congrArg Nesting.depth (nesting_countAttempt fed)).trans hdepth
  -- From here on the pool is any that meets these facts, so that nothing evaluates it.
  clear_value p
  have hmissing : (p.seed InMemoryReader.empty.reader 12).value.2 =
      some (.marketNotFound market) := by
    rw [fault_seed, hfetcher]
    decide +kernel
  have hdown : (p.seed { served with failing := true }.reader 12).value.2 =
      some InMemoryReader.outOfReach := by
    rw [fault_seed, hfetcher]
    decide +kernel
  have hok : (p.seed served.reader 9).value.2 = none := by
    refine Option.eq_none_iff_forall_ne_some.mpr fun fault hfault => ?_
    rw [fault_seed, hfetcher] at hfault
    have hfound : (unseeded.fetcher.tryFetch served.reader 9).value.toOption.isSome := by
      decide +kernel
    rw [hfault] at hfound
    cases hfound
  obtain ⟨-, hpermanent, -⟩ := seed_all_or_nothing hreachable InMemoryReader.empty.reader 12
  obtain ⟨-, -, htransient, -⟩ :=
    seed_all_or_nothing hreachable { served with failing := true }.reader 12
  obtain ⟨-, -, -, hsuccess⟩ := seed_all_or_nothing hreachable served.reader 9
  exact ⟨hopen, hattempts, hpermanent _ hmissing rfl, (htransient _ hdown rfl).1,
    (hsuccess hok).1⟩

end OfferBook.Pool
