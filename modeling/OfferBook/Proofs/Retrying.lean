import OfferBook.Proofs.Independence

/-!
# When a registry tries again

A registry seeds the pool of a market when the market is first asked for. As long as that fails
for the time being, it tries again at every so many requests for the market, and in between serves
the pool as it is without a word to the reader. Once an attempt succeeded it never tries again.

An `Attempt` says what is asked of the reader to seed a pool for a request, and what comes of it.
As long as all attempts failed for the time being, the account that the registry keeps of them is
a function of the number of requests for the market (`Awaits`): nothing else that happens to the
registry, no log and no request for another market, has a part in it. Therefore the number alone
decides which request is an attempt.

The account is kept modulo `Pool.attemptCycle`, so the requests are counted right up to there.

## Main results

* `Awaits.due`: whether a request is an attempt, by the number of requests before it.
* `awaits_run`: the account after any run in which all attempts failed for the time being.
* `settled_run`: a pool that was seeded by a request stays so.
* `OnSchedule`, `retries_run`: the schedule of attempts.
-/

namespace OfferBook

/-! ## Attempts -/

/-- An attempt to seed a pool for a request: what fetches the book, the reader to fetch it from,
and the block, if one was asked for. -/
structure Attempt where
  fetcher : Fetcher
  reader : Reader
  block : Option Nat

namespace Attempt

/-- The block to seed at: the one asked for, or else the head of the chain, if that can be found
out. -/
def target? (a : Attempt) : Option Nat := a.block.or a.reader.head.toOption

/-- The query for the head of the chain, where no block was asked for. -/
def headQuery (a : Attempt) : List Request := if a.block.isNone then [.head] else []

/-- Everything the attempt asks of the reader. -/
def requests (a : Attempt) : List Request :=
  a.headQuery ++ (a.target?.map fun n => Request.batch a.fetcher.request n).toList

/-- The head of the chain cannot be found out, or fetching the book has a fault that may be gone
another time. -/
def FailsForNow (a : Attempt) : Prop :=
  a.target? = none ∨ ∃ n fault, a.target? = some n ∧
    (a.fetcher.tryFetch a.reader n).value = .error fault ∧ fault.isPermanent = false

/-- A book is fetched. -/
def Succeeds (a : Attempt) : Prop :=
  ∃ n b, a.target? = some n ∧ (a.fetcher.tryFetch a.reader n).value = .ok b

/-- An attempt asks something of the reader. -/
theorem requests_ne_nil (a : Attempt) : a.requests ≠ [] := by
  obtain ⟨fetcher, reader, block⟩ := a
  cases block <;> simp [requests, headQuery, target?]

/-- An attempt asks for the head of the chain at most once. -/
theorem count_head_le_one (a : Attempt) : a.requests.count .head ≤ 1 := by
  unfold requests headQuery
  cases a.target? <;> split <;> simp

/-- An attempt sends at most one batch. -/
theorem countP_isBatch_le_one (a : Attempt) : a.requests.countP Request.isBatch ≤ 1 := by
  unfold requests headQuery
  cases a.target? <;> split <;> simp [Request.isBatch]

end Attempt

namespace Registry

variable {r : Registry} {m : Market} {missing : MissingMarkets} {reader : Reader}
  {block : Option Nat} {p q : Pool} {k : Nat}

/-! ## Serving a pool -/

/-- A pool that is not due is served without asking the reader anything. -/
theorem serve_of_not_due (h : r.dueForSeeding p = (q, false)) :
    (r.serve missing reader p block).value = ⟨r.put q.market (some q), missing, some q, []⟩ := by
  simp [serve, h]

/-- A pool that is due is marked as failed where the head of the chain cannot be found out. -/
private theorem serve_of_unresolved (h : r.dueForSeeding p = (q, true))
    (hblock : Attempt.target? ⟨q.fetcher, reader, block⟩ = none) :
    (r.serve missing reader p block).value =
      ⟨r.put q.market (some q.markFailed), missing, some q.markFailed, [.head]⟩ := by
  cases block with
  | some n => cases hblock
  | none =>
      cases hhead : reader.head with
      | ok n => simp [Attempt.target?, hhead, Except.toOption] at hblock
      | error fault => simp [serve, h, resolveBlock, hhead, Pool.markFailed, Pool.market]

/-- A pool that is due is seeded at the block of the attempt. -/
private theorem serve_of_resolved {n : Nat} (h : r.dueForSeeding p = (q, true))
    (hblock : Attempt.target? ⟨q.fetcher, reader, block⟩ = some n) :
    (r.serve missing reader p block).value =
      (r.seedAt missing reader q n (Attempt.headQuery ⟨q.fetcher, reader, block⟩)).value := by
  cases block with
  | some n' =>
      obtain rfl : n' = n := Option.some.inj hblock
      simp [serve, h, resolveBlock, Attempt.headQuery]
  | none =>
      cases hhead : reader.head with
      | ok n' =>
          obtain rfl : n' = n := by simpa [Attempt.target?, hhead, Except.toOption] using hblock
          simp [serve, h, resolveBlock, hhead, Attempt.headQuery]
      | error fault => simp [Attempt.target?, hhead, Except.toOption] at hblock

/-- What is asked of the reader for a pool that is due is what an attempt asks. -/
theorem requests_serve_of_due (h : r.dueForSeeding p = (q, true)) :
    (r.serve missing reader p block).value.requests =
      Attempt.requests ⟨q.fetcher, reader, block⟩ := by
  cases hblock : Attempt.target? ⟨q.fetcher, reader, block⟩ with
  | none =>
      rw [serve_of_unresolved h hblock, Attempt.requests, hblock]
      cases block with
      | none => rfl
      | some n => cases hblock
  | some n =>
      rw [serve_of_resolved h hblock, Attempt.requests, hblock]
      cases hfetch : (q.fetcher.tryFetch reader n).value with
      | ok b => rw [seedAt_of_ok hfetch]; rfl
      | error fault =>
          rw [seedAt_of_error hfetch]
          split <;> rfl

/-- A failure for the time being is noted, and nothing else. -/
theorem serve_of_failsForNow (h : r.dueForSeeding p = (q, true))
    (hfails : Attempt.FailsForNow ⟨q.fetcher, reader, block⟩) :
    (r.serve missing reader p block).value.registry = r.put q.market (some q.markFailed) := by
  rcases hfails with hblock | ⟨n, fault, hblock, hfetch, htransient⟩
  · rw [serve_of_unresolved h hblock]
  · have hseed : (q.seed reader n).value.1 = q.markFailed := by
      rw [Pool.seed_of_error hfetch, htransient]
      rfl
    rw [serve_of_resolved h hblock, seedAt_of_error hfetch, htransient, hseed]
    rfl

/-- After a success the pool has started over from the book. -/
theorem serve_of_succeeds (h : r.dueForSeeding p = (q, true))
    (hsucceeds : Attempt.Succeeds ⟨q.fetcher, reader, block⟩) :
    ∃ n b, (r.serve missing reader p block).value.registry =
        r.put q.market (some (q.restart n b)) ∧
      (r.serve missing reader p block).value.pool = some (q.restart n b) := by
  obtain ⟨n, b, hblock, hfetch⟩ := hsucceeds
  refine ⟨n, b, ?_⟩
  rw [serve_of_resolved h hblock, seedAt_of_ok hfetch, Pool.seed_of_ok hfetch]
  exact ⟨rfl, rfl⟩

/-! ## The account of requests -/

/-- What is held for a market after so many requests for it, if all attempts there were failed for
the time being: nothing at first, and then a failed pool with an account of the requests. -/
def Awaits (r : Registry) (m : Market) : Nat → Prop
  | 0 => r.slot? m = none
  | k + 1 => ∃ p, r.slot? m = some (some p) ∧ p.failed = true ∧ p.attempts = k % Pool.attemptCycle

/-- The number of requests before it decides whether a request for the market is an attempt. -/
theorem Awaits.due (h : r.Awaits m k) :
    ∃ p q, r.Holds m p ∧
      r.dueForSeeding p = (q, decide (k % Pool.attemptCycle % r.config.retryEvery = 0)) ∧
      Pool.SameContents p q ∧ q.attempts = k % Pool.attemptCycle ∧
      (k % Pool.attemptCycle % r.config.retryEvery ≠ 0 → r.pool? m = some p ∧ q.failed = true) := by
  cases k with
  | zero =>
      let p := Pool.new r.dex r.deployment m r.config
      refine ⟨p, p, .inr ⟨h, rfl⟩, ?_, .refl p, rfl, fun hk => absurd (by simp) hk⟩
      simp [dueForSeeding, p, Pool.new]
  | succ k =>
      obtain ⟨p, hslot, hfailed, hattempts⟩ := h
      have hcount : p.countAttempt.attempts = (k + 1) % Pool.attemptCycle := by
        rw [Pool.countAttempt, hattempts, Nat.mod_add_mod]
      refine ⟨p, p.countAttempt, .inl hslot, ?_, Pool.sameContents_countAttempt p, hcount,
        fun _ => ⟨pool?_eq_some_iff.mpr hslot, hfailed⟩⟩
      simp only [dueForSeeding, hfailed, if_true, hcount]

/-- The attempt to seed the pool of a market that a request for it may be. -/
def attempt (r : Registry) (m : Market) (reader : Reader) (block : Option Nat) : Attempt :=
  ⟨(Pool.new r.dex r.deployment m r.config).fetcher, reader, block⟩

private theorem Holds.market_eq (hf : r.Filed) (h : r.Holds m p)
    (hsame : Pool.SameContents p q) : q.market = m :=
  (congrArg Fetcher.market hsame.fetcher.symm).trans (h.market hf)

private theorem Holds.attempt_eq (hf : r.Filed) (h : r.Holds m p) (hsame : Pool.SameContents p q) :
    Attempt.mk q.fetcher reader block = r.attempt m reader block := by
  rw [attempt, ← h.fetcher hf, hsame.fetcher]

/-- What a request for the market asks of the reader. -/
theorem Awaits.requests_getPool (hf : r.Filed) (h : r.Awaits m k)
    (hunknown : missing.contains (m.cacheKey r.dex) = false) :
    (r.getPool missing reader m block).value.requests =
      if k % Pool.attemptCycle % r.config.retryEvery = 0 then
        (r.attempt m reader block).requests else [] := by
  obtain ⟨p, q, hholds, hdue, hsame, -⟩ := h.due
  rw [getPool_of_holds hunknown hholds]
  by_cases hk : k % Pool.attemptCycle % r.config.retryEvery = 0
  · rw [decide_eq_true hk] at hdue
    rw [if_pos hk, requests_serve_of_due hdue, hholds.attempt_eq hf hsame]
  · rw [decide_eq_false hk] at hdue
    rw [if_neg hk, serve_of_not_due hdue]

/-! ## Runs in which all attempts fail for the time being -/

/-- If the action is a request for the market, the market's key is not in the set, and in case the
request is an attempt, the attempt fails for the time being. -/
def FailsForNow (r : Registry) (m : Market) : Action → Prop
  | .request missing reader m' block =>
    m' = m → missing.contains (m.cacheKey r.dex) = false ∧
      ((r.getPool missing reader m block).value.requests ≠ [] →
        (r.attempt m reader block).FailsForNow)
  | .feed _ => True

/-- All attempts for the market in the course of the actions fail for the time being. -/
def KeepsFailing (m : Market) : Registry → List Action → Prop
  | _, [] => True
  | r, a :: rest => r.FailsForNow m a ∧ KeepsFailing m (r.act a) rest

/-- One more request for the market is counted. -/
theorem awaits_request (hf : r.Filed) (h : r.Awaits m k)
    (hfails : r.FailsForNow m (.request missing reader m block)) :
    (r.getPool missing reader m block).value.registry.Awaits m (k + 1) := by
  obtain ⟨hunknown, hfails⟩ := hfails rfl
  rw [h.requests_getPool hf hunknown] at hfails
  obtain ⟨p, q, hholds, hdue, hsame, hattempts, hlater⟩ := h.due
  have hmarket : q.market = m := hholds.market_eq hf hsame
  rw [getPool_of_holds hunknown hholds]
  -- Either way a failed pool is held afterwards, with the count that this request brought about.
  by_cases hk : k % Pool.attemptCycle % r.config.retryEvery = 0
  · rw [decide_eq_true hk] at hdue
    rw [if_pos hk] at hfails
    have hfailed := hfails (r.attempt m reader block).requests_ne_nil
    rw [serve_of_failsForNow hdue (hholds.attempt_eq hf hsame ▸ hfailed), hmarket]
    exact ⟨q.markFailed, by rw [slot?_put, if_pos rfl], rfl, hattempts⟩
  · rw [decide_eq_false hk] at hdue
    rw [serve_of_not_due hdue, hmarket]
    exact ⟨q, by rw [slot?_put, if_pos rfl], (hlater hk).2, hattempts⟩

/-- A log has no part in the account. -/
theorem awaits_onLog (h : r.Awaits m k) (log : Log) : (r.onLog log).value.1.Awaits m k := by
  by_cases hlog : log.address = r.deployment.orderBook
  · have hslot := slot?_onLog hlog m
    cases k with
    | zero => exact hslot.trans (by rw [show r.slot? m = none from h]; rfl)
    | succ k =>
        obtain ⟨p, hp, hfailed, hattempts⟩ := h
        have hframe := Pool.onLog_frame p log
        exact ⟨_, hslot.trans (by rw [hp]; rfl), hframe.failed.trans hfailed,
          hframe.attempts.trans hattempts⟩
  · rw [onLog_of_ne hlog]
    exact h

/-- Nor has anything else that leaves the slot of the market alone. -/
theorem Awaits.of_slot?_eq {r' : Registry} (h : r.Awaits m k) (hslot : r'.slot? m = r.slot? m) :
    r'.Awaits m k := by
  cases k with
  | zero => exact hslot.trans h
  | succ k =>
      obtain ⟨p, hp, hnoted⟩ := h
      exact ⟨p, hslot.trans hp, hnoted⟩

/-- An action counts in the account if it is a request for the market. -/
theorem awaits_act (hf : r.Filed) (h : r.Awaits m k) {a : Action} (hfails : r.FailsForNow m a) :
    (r.act a).Awaits m (k + if a.asksFor m then 1 else 0) := by
  cases a with
  | feed log => exact awaits_onLog h log
  | request missing reader m' block =>
      by_cases hm : m' = m
      · subst hm
        simpa [Action.asksFor, act] using awaits_request hf h hfails
      · simpa [Action.asksFor, act, hm] using
          h.of_slot?_eq (slot?_getPool_of_ne hf (Ne.symm hm) missing reader block)

/-- The account after a run, by the number of requests for the market in it. -/
theorem awaits_run (hf : r.Filed) (h : r.Awaits m k) {actions : List Action}
    (hfails : KeepsFailing m r actions) :
    (r.run actions).Awaits m (k + actions.countP (Action.asksFor m)) := by
  induction actions generalizing r k with
  | nil => exact h
  | cons a rest ih =>
      obtain ⟨hfirst, hrest⟩ := hfails
      rw [run_cons, List.countP_cons, Nat.add_comm (rest.countP _), ← Nat.add_assoc]
      exact ih (filed_act hf a) (awaits_act hf h hfirst) hrest

/-! ## Once an attempt succeeded -/

/-- The market has a pool that is ready. -/
def Settled (r : Registry) (m : Market) : Prop :=
  ∃ p, r.slot? m = some (some p) ∧ p.isReady = true

/-- A pool that is ready is not due. -/
theorem dueForSeeding_of_ready (h : p.isReady = true) : r.dueForSeeding p = (p, false) := by
  simp only [Pool.isReady, Bool.and_eq_true, Bool.not_eq_true'] at h
  simp [dueForSeeding, h.1, h.2]

/-- A request for such a market asks the reader nothing and changes nothing. -/
theorem Settled.getPool (hf : r.Filed) (h : r.Settled m) :
    (r.getPool missing reader m block).value.requests = [] ∧
      (r.getPool missing reader m block).value.registry.slot? m = r.slot? m := by
  obtain ⟨p, hslot, hready⟩ := h
  cases hunknown : missing.contains (m.cacheKey r.dex) with
  | true =>
      rw [Registry.getPool, if_pos hunknown]
      exact ⟨rfl, rfl⟩
  | false =>
      rw [getPool_of_holds hunknown (.inl hslot), serve_of_not_due (dueForSeeding_of_ready hready)]
      refine ⟨rfl, ?_⟩
      rw [slot?_put, if_pos (Holds.market hf (.inl hslot)).symm, hslot]

/-- No action unsettles a market. -/
theorem settled_act (hf : r.Filed) (h : r.Settled m) (a : Action) : (r.act a).Settled m := by
  obtain ⟨p, hslot, hready⟩ := h
  cases a with
  | request missing reader m' block =>
      by_cases hm : m' = m
      · subst hm
        exact ⟨p, (Settled.getPool hf ⟨p, hslot, hready⟩).2.trans hslot, hready⟩
      · exact ⟨p, (slot?_getPool_of_ne hf (Ne.symm hm) missing reader block).trans hslot, hready⟩
  | feed log =>
      by_cases hlog : log.address = r.deployment.orderBook
      · have hframe := Pool.onLog_frame p log
        refine ⟨_, (slot?_onLog hlog m).trans (by rw [hslot]; rfl), ?_⟩
        rw [Pool.isReady, hframe.seededAt, hframe.failed]
        exact hready
      · exact ⟨p, (congrArg (slot? · m) (congrArg Prod.fst (onLog_of_ne hlog))).trans hslot, hready⟩

theorem settled_run (hf : r.Filed) (h : r.Settled m) (actions : List Action) :
    (r.run actions).Settled m := by
  induction actions generalizing r with
  | nil => exact h
  | cons a rest ih => exact ih (filed_act hf a) (settled_act hf h a)

/-! ## The schedule -/

/-- A request that is no attempt serves the pool that is held. -/
theorem Awaits.kept (hf : r.Filed) (h : r.Awaits m k)
    (hunknown : missing.contains (m.cacheKey r.dex) = false)
    (hnone : (r.getPool missing reader m block).value.requests = []) :
    ∃ p q, r.pool? m = some p ∧ (r.getPool missing reader m block).value.pool = some q ∧
      q.history = p.history ∧ q.nesting = p.nesting := by
  rw [h.requests_getPool hf hunknown] at hnone
  obtain ⟨p, q, hholds, hdue, hsame, -, hlater⟩ := h.due
  have hk : ¬ k % Pool.attemptCycle % r.config.retryEvery = 0 := by
    intro hk
    rw [if_pos hk] at hnone
    exact (r.attempt m reader block).requests_ne_nil hnone
  rw [decide_eq_false hk] at hdue
  rw [getPool_of_holds hunknown hholds, serve_of_not_due hdue]
  exact ⟨p, q, (hlater hk).1, rfl, hsame.history.symm, hsame.nesting.symm⟩

/-- An attempt that succeeds leaves a pool that is ready, with no request counted. -/
theorem Awaits.settles (hf : r.Filed) (h : r.Awaits m k)
    (hunknown : missing.contains (m.cacheKey r.dex) = false)
    (hsome : (r.getPool missing reader m block).value.requests ≠ [])
    (hsucceeds : (r.attempt m reader block).Succeeds) :
    ∃ p, (r.getPool missing reader m block).value.pool = some p ∧ p.attempts = 0 ∧
      p.isReady = true ∧ (r.getPool missing reader m block).value.registry.Settled m := by
  rw [h.requests_getPool hf hunknown] at hsome
  obtain ⟨p, q, hholds, hdue, hsame, -⟩ := h.due
  have hk : k % Pool.attemptCycle % r.config.retryEvery = 0 := by
    by_contra hk
    exact hsome (if_neg hk)
  have hmarket : q.market = m := hholds.market_eq hf hsame
  rw [decide_eq_true hk] at hdue
  obtain ⟨n, b, hregistry, hpool⟩ :=
    serve_of_succeeds hdue (hholds.attempt_eq hf hsame ▸ hsucceeds)
  rw [getPool_of_holds hunknown hholds, hregistry, hpool, hmarket]
  exact ⟨_, rfl, rfl, rfl, _, by rw [slot?_put, if_pos rfl], rfl⟩

/-- What the next request for a market comes to, the `k`-th one: the registry before it, the attempt
that it may be, and the answer. -/
structure OnSchedule (c : PoolConfig) (m : Market) (r : Registry) (k : Nat) (attempt : Attempt)
    (answer : Served) : Prop where
  frequency_pos : 0 < c.retryEvery
  /-- It is an attempt exactly if the number of requests before is a multiple of the frequency. -/
  scheduled : k ≤ 0x100000000 →
    answer.requests = if (k - 1) % c.retryEvery = 0 then attempt.requests else []
  /-- It asks for the head of the chain at most once, and sends at most one batch. -/
  head_once : answer.requests.count .head ≤ 1
  batch_once : answer.requests.countP Request.isBatch ≤ 1
  /-- If it is no attempt, the pool that is held is served, with its history and nesting. -/
  kept : answer.requests = [] → ∃ p q, r.pool? m = some p ∧ answer.pool = some q ∧
    q.history = p.history ∧ q.nesting = p.nesting
  /-- After an attempt that succeeds the pool is ready with no request counted, and no later request
  for the market asks the reader anything again. -/
  settled : answer.requests ≠ [] → attempt.Succeeds →
    ∃ p, answer.pool = some p ∧ p.attempts = 0 ∧ p.isReady = true ∧
      ∀ after missing' reader' block', ((answer.registry.run after).getPool missing' reader' m
        block').value.requests = []

/-- **When a registry tries again.** In a run of a new registry in which all attempts for a market
failed for the time being, whatever else was asked for and whatever logs were fed, the next request
for the market is an attempt exactly if the number of requests for it before is a multiple of the
retry frequency, which is positive. This holds up to request number 2 ^ 32. A request asks for the
head of the chain at most once and sends at most one batch; one that is no attempt asks nothing
and serves the pool that is held, with its history and nesting. After an attempt that succeeds the
pool is ready with no request counted, and whatever follows, no request for the market ever asks
the reader anything again. -/
theorem retries_run (dex : String) (d : Deployment) (c : PoolConfig) (m : Market)
    (before : List Action) (hfailing : KeepsFailing m (Registry.new dex d c) before)
    (missing : MissingMarkets) (hunknown : missing.contains (m.cacheKey dex) = false)
    (reader : Reader) (block : Option Nat) :
    let r := (Registry.new dex d c).run before
    let k := before.countP (Action.asksFor m) + 1
    let attempt := (Registry.new dex d c).attempt m reader block
    let answer := (r.getPool missing reader m block).value
    OnSchedule c m r k attempt answer := by
  intro r k attempt answer
  obtain ⟨slots, hsetting⟩ := setting_run (Registry.new dex d c) before
  have hconfig : r.config = c := congrArg Registry.config hsetting
  have hattempt : r.attempt m reader block = attempt := by
    simp only [r, attempt, hsetting, Registry.attempt]
  have hunknown : missing.contains (m.cacheKey r.dex) = false := by
    rw [show r.dex = dex from congrArg Registry.dex hsetting]
    exact hunknown
  have hf : r.Filed := filed_run (filed_new dex d c) before
  have hawaits : r.Awaits m (before.countP (Action.asksFor m)) := by
    simpa using awaits_run (k := 0) (filed_new dex d c) rfl hfailing
  have hrequests : answer.requests = if before.countP (Action.asksFor m) % Pool.attemptCycle %
      c.retryEvery = 0 then attempt.requests else [] := by
    rw [← hconfig, ← hattempt]
    exact hawaits.requests_getPool hf hunknown
  have honce : answer.requests.count .head ≤ 1 ∧ answer.requests.countP Request.isBatch ≤ 1 := by
    rw [hrequests]
    split
    · exact ⟨attempt.count_head_le_one, attempt.countP_isBatch_le_one⟩
    · exact ⟨Nat.zero_le _, Nat.zero_le _⟩
  refine ⟨c.retryEvery_pos, fun hk => ?_, honce.1, honce.2, hawaits.kept hf hunknown,
    fun hsome hsucceeds => ?_⟩
  · have hlt : before.countP (Action.asksFor m) < Pool.attemptCycle := hk
    rw [hrequests, Nat.mod_eq_of_lt hlt]
    rfl
  · obtain ⟨p, hpool, hattempts, hready, hsettled⟩ :=
      hawaits.settles hf hunknown hsome (hattempt ▸ hsucceeds)
    have hfiled : answer.registry.Filed := filed_act hf (.request missing reader m block)
    refine ⟨p, hpool, hattempts, hready, fun after missing' reader' block' => ?_⟩
    exact ((settled_run hfiled hsettled after).getPool (filed_run hfiled after)).1

/-- Every other request is an attempt. The first one cannot find out the head of the chain, the
third one gets no answer to its batch, and the fifth one succeeds; a log and a request for another
market come in between. -/
theorem retries_run_every_other :
    let m : Market := ⟨0xaa, 0xbb, 1⟩
    let served : InMemoryReader :=
      ⟨10, [⟨m, 0, [.usual 9 ⟨-1, by decide, by decide⟩ 5]⟩], false, false⟩
    let down := { served with failing := true }
    let log : Log := ⟨Deployment.arbitrum.orderBook, [], [], some 11, none, none, some 3, false⟩
    let start := Registry.new "mangrove" .arbitrum (PoolConfig.default.withRetryEvery 2)
    let before : List Action :=
      [.request .empty down.reader m none, .feed log, .request .empty served.reader m none,
        .request .empty down.reader m (some 12),
        .request .empty served.reader ⟨0xbb, 0xaa, 1⟩ none, .request .empty served.reader m none]
    let answer := ((start.run before).getPool .empty served.reader m none).value
    KeepsFailing m start before ∧
      answer.requests = [.head, .batch (start.attempt m served.reader none).fetcher.request 10] ∧
      ∃ p, answer.pool = some p ∧ p.attempts = 0 ∧ p.isReady = true ∧
        ∀ after missing' reader' block', ((answer.registry.run after).getPool missing' reader' m
          block').value.requests = [] := by
  intro m served down log start before answer
  have hfailing : KeepsFailing m start before := by
    refine ⟨fun _ => ⟨rfl, fun _ => .inl rfl⟩, trivial, fun _ => ⟨rfl, fun h => ?_⟩,
      fun _ => ⟨rfl, fun _ => .inr ⟨12, InMemoryReader.outOfReach, rfl, rfl, rfl⟩⟩,
      fun h => absurd h (by decide), fun _ => ⟨rfl, fun h => ?_⟩, trivial⟩
    · exact absurd (by decide +kernel) h
    · exact absurd (by decide +kernel) h
  have hcount : before.countP (Action.asksFor m) = 4 := by decide +kernel
  have hasked : (start.attempt m served.reader none).requests =
      [.head, .batch (start.attempt m served.reader none).fetcher.request 10] := rfl
  have hfetched : ((start.attempt m served.reader none).fetcher.tryFetch served.reader
      10).value.toOption.isSome := by
    decide +kernel
  have hsucceeds : (start.attempt m served.reader none).Succeeds := by
    let fetcher := (start.attempt m served.reader none).fetcher
    cases hfetch : (fetcher.tryFetch served.reader 10).value with
    | ok b => exact ⟨10, b, rfl, hfetch⟩
    | error fault =>
        rw [hfetch] at hfetched
        cases hfetched
  -- From here on the run is any that meets these facts, so that nothing evaluates it.
  clear_value before
  have hschedule := retries_run "mangrove" .arbitrum (PoolConfig.default.withRetryEvery 2) m before
    hfailing .empty rfl served.reader none
  rw [hcount] at hschedule
  have hrequests : answer.requests = (start.attempt m served.reader none).requests :=
    hschedule.scheduled (by decide)
  exact ⟨hfailing, hrequests.trans hasked,
    hschedule.settled (hrequests ▸ Attempt.requests_ne_nil _) hsucceeds⟩

end Registry

end OfferBook
