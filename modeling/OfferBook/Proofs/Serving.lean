import OfferBook.Proofs.Run
import OfferBook.Registry

/-!
# What a registry does with its pools

A registry changes a pool in two ways: a log is fed to every pool it holds, and a request for a
market may seed the pool of that market. Besides, it keeps account of failed attempts, which the
pool itself never looks at. So two pools that differ at most in that account, and in the key they
were created under, go on alike whatever is done to them (`SameContents`).

What is held for a market is found by `Registry.slot?`, and the lemmas say how requests and logs
change it: a request changes the slot of its own market only (`slot?_put`), and a log the pool in
every slot (`slot?_onLog`). `Serves` lists what can come of serving a pool: it is kept as it is, it
is seeded or fails for the time being, or its market turns out to be missing. `Answers` adds what
comes before that: a request may be turned down, or a new pool be made for it.

## Main results

* `sameContents_act`: what seeding and feeding do depends on the contents alone.
* `serves_serve`, `answers_getPool`: every way in which a pool is served and a request answered.
* `slot?_onLog`, `filter_onLog`: what feeding a log does to the slots, and what is reported.
-/

namespace OfferBook

namespace Pool

variable {p q : Pool}

/-! ## The contents of a pool -/

/-- The two pools differ at most in the key they were created under and in the account of failed
attempts. -/
structure SameContents (p q : Pool) : Prop where
  fetcher : p.fetcher = q.fetcher
  history : p.history = q.history
  nesting : p.nesting = q.nesting
  seededAt : p.seededAt = q.seededAt
  lastLog : p.lastLog = q.lastLog

theorem SameContents.refl (p : Pool) : SameContents p p := ⟨rfl, rfl, rfl, rfl, rfl⟩

theorem SameContents.symm (h : SameContents p q) : SameContents q p :=
  ⟨h.fetcher.symm, h.history.symm, h.nesting.symm, h.seededAt.symm, h.lastLog.symm⟩

theorem SameContents.trans {r : Pool} (hpq : SameContents p q) (hqr : SameContents q r) :
    SameContents p r :=
  ⟨hpq.fetcher.trans hqr.fetcher, hpq.history.trans hqr.history, hpq.nesting.trans hqr.nesting,
    hpq.seededAt.trans hqr.seededAt, hpq.lastLog.trans hqr.lastLog⟩

theorem sameContents_countAttempt (p : Pool) : SameContents p p.countAttempt :=
  ⟨rfl, rfl, rfl, rfl, rfl⟩

theorem sameContents_markFailed (p : Pool) : SameContents p p.markFailed :=
  ⟨rfl, rfl, rfl, rfl, rfl⟩

/-- Seeding asks for the same batch and takes over the same answer. -/
theorem sameContents_seed (h : SameContents p q) (r : Reader) (block : Nat) :
    SameContents (p.seed r block).value.1 (q.seed r block).value.1 := by
  cases hfetch : (p.fetcher.tryFetch r block).value with
  | ok b =>
      rw [seed_of_ok hfetch, seed_of_ok (h.fetcher ▸ hfetch)]
      exact ⟨h.fetcher, by rw [restart, restart, h.history], rfl, rfl, rfl⟩
  | error fault =>
      rw [seed_of_error hfetch, seed_of_error (h.fetcher ▸ hfetch)]
      split
      · exact h
      · exact ((sameContents_markFailed p).symm.trans h).trans (sameContents_markFailed q)

/-- Seeding opens no order. -/
theorem idle_seed (h : p.nesting = .idle) (r : Reader) (block : Nat) :
    (p.seed r block).value.1.nesting = .idle := by
  rcases p.seed_cases r block with ⟨b, -, hseed⟩ | ⟨fault, failed, -, hseed⟩
  · rw [hseed]
    rfl
  · rw [hseed]
    exact h

theorem accepts_of_sameContents (h : SameContents p q) {log : Log} {latest : Book} {block : Nat}
    (haccepts : p.Accepts log latest block) : q.Accepts log latest block where
  placed := haccepts.placed
  standing := haccepts.standing
  latest_eq := by
    rw [latest?, ← h.history]
    exact haccepts.latest_eq
  fresh := by
    have hfresh := haccepts.fresh
    rw [reflects_eq_false_iff] at hfresh ⊢
    rw [← h.seededAt, ← h.lastLog]
    exact hfresh

/-- Feeding applies the same event and leaves the same contents. -/
theorem sameContents_onLog (h : SameContents p q) (hw : p.history.Wf) (log : Log) :
    (p.onLog log).value.applied = (q.onLog log).value.applied ∧
      SameContents (p.onLog log).value.pool (q.onLog log).value.pool := by
  rcases p.refuses_or_accepts log with hrefuses | ⟨latest, block, haccepts⟩
  · have hrefuses' : q.Refuses log := fun latest block hacc =>
      hrefuses latest block (accepts_of_sameContents h.symm hacc)
    rw [onLog_of_refuses hrefuses, onLog_of_refuses hrefuses']
    exact ⟨rfl, h⟩
  · have hmarket : p.market = q.market := congrArg Fetcher.market h.fetcher
    have houtcome : p.outcome log latest = q.outcome log latest := by
      rw [outcome, outcome, h.nesting, hmarket]
    rw [onLog_of_accepts hw haccepts,
      onLog_of_accepts (h.history ▸ hw) (accepts_of_sameContents h haccepts), houtcome, hmarket]
    refine ⟨rfl, ?_⟩
    cases log.position? with
    | none => exact ⟨h.fetcher, by rw [noteLast, noteLast, h.history], rfl, h.seededAt, h.lastLog⟩
    | some here => exact ⟨h.fetcher, by rw [noteLast, noteLast, h.history], rfl, h.seededAt, rfl⟩

/-- What is done to a pool has the same effect on any pool with the same contents. -/
theorem sameContents_act (h : SameContents p q) (hw : p.history.Wf) (a : Action) :
    SameContents (p.act a) (q.act a) := by
  cases a with
  | seed r block => exact sameContents_seed h r block
  | feed log => exact (sameContents_onLog h hw log).2

end Pool

namespace Registry

variable {r : Registry} {m other : Market} {slot : Option Pool} {missing : MissingMarkets}
  {reader : Reader} {log : Log}

/-! ## Slots -/

/-- What a list of slots holds for a market. -/
private theorem slot?_def (r : Registry) (m : Market) :
    r.slot? m = (r.slots.find? fun s => s.1 = m).map Prod.snd := rfl

theorem slot?_put (r : Registry) (m : Market) (slot : Option Pool) (other : Market) :
    (r.put m slot).slot? other = if other = m then some slot else r.slot? other := by
  obtain ⟨dex, deployment, config, slots⟩ := r
  simp only [put, slot?]
  induction slots with
  | nil =>
      by_cases hother : other = m
      · simp [place, hother]
      · simp [place, hother, Ne.symm hother]
  | cons head rest ih =>
      obtain ⟨m', slot'⟩ := head
      by_cases hm : m' = m
      · subst hm
        by_cases hother : other = m'
        · simp [place, hother]
        · simp [place, hother, Ne.symm hother]
      · by_cases hother : m' = other
        · subst hother
          simp [place, hm]
        · simpa [place, hm, hother] using ih

/-- The markets a registry holds something for, live or missing. -/
def markets (r : Registry) : List Market := r.slots.map Prod.fst

private theorem mem_markets_place {slots : List (Market × Option Pool)} :
    other ∈ (place m slot slots).map Prod.fst ↔ other = m ∨ other ∈ slots.map Prod.fst := by
  induction slots with
  | nil => simp [place]
  | cons head rest ih =>
      obtain ⟨m', slot'⟩ := head
      by_cases hm : m' = m
      · simp [place, hm]
      · simp only [place, hm, if_false, List.map_cons, List.mem_cons, ih]
        grind

/-- No market has two slots. -/
theorem nodup_put (h : r.markets.Nodup) (m : Market) (slot : Option Pool) :
    (r.put m slot).markets.Nodup := by
  obtain ⟨dex, deployment, config, slots⟩ := r
  simp only [put, markets] at *
  induction slots with
  | nil => simp [place]
  | cons head rest ih =>
      obtain ⟨m', slot'⟩ := head
      obtain ⟨hhead, hrest⟩ := List.nodup_cons.mp h
      by_cases hm : m' = m
      · subst hm
        simpa [place] using h
      · simp only [place, hm, if_false, List.map_cons]
        refine List.nodup_cons.mpr ⟨fun hmem => ?_, ih hrest⟩
        rcases mem_markets_place.mp hmem with heq | hmem
        · exact hm heq
        · exact hhead hmem

/-! ## Feeding a log -/

/-- The slots after feeding. -/
theorem slots_feed (log : Log) (slots : List (Market × Option Pool)) :
    (feed log slots).value.1 =
      slots.map fun s => (s.1, s.2.map fun p => (p.onLog log).value.pool) := by
  induction slots with
  | nil => rfl
  | cons head rest ih =>
      obtain ⟨m, slot⟩ := head
      cases slot with
      | none => simp [feed, ih]
      | some p => simp [feed, ih]

/-- The report of feeding: what each pool applied, with its market. -/
theorem applied_feed (log : Log) (slots : List (Market × Option Pool)) :
    (feed log slots).value.2 = slots.flatMap fun s =>
      ((s.2.bind fun p => (p.onLog log).value.applied).map fun e => (s.1, e)).toList := by
  induction slots with
  | nil => rfl
  | cons head rest ih =>
      obtain ⟨m, slot⟩ := head
      cases slot with
      | none => simp [feed, ih]
      | some p => simp [feed, ih]

/-- A log of another contract has no effect. -/
theorem onLog_of_ne (h : log.address ≠ r.deployment.orderBook) :
    (r.onLog log).value = (r, []) := by
  rw [onLog, if_neg h]

theorem onLog_of_eq (h : log.address = r.deployment.orderBook) :
    (r.onLog log).value = ({ r with slots := (feed log r.slots).value.1 },
      (feed log r.slots).value.2) := by
  rw [onLog, if_pos h]
  rfl

/-- Every live pool is fed the log, and no slot besides changes. -/
theorem slot?_onLog (h : log.address = r.deployment.orderBook) (m : Market) :
    (r.onLog log).value.1.slot? m =
      (r.slot? m).map (Option.map fun p => (p.onLog log).value.pool) := by
  rw [onLog_of_eq h, slot?_def, slot?_def, slots_feed, List.find?_map, Option.map_map,
    Option.map_map]
  rfl

theorem markets_onLog (r : Registry) (log : Log) : (r.onLog log).value.1.markets = r.markets := by
  by_cases h : log.address = r.deployment.orderBook
  · rw [onLog_of_eq h, markets, markets, slots_feed, List.map_map]
    rfl
  · rw [onLog_of_ne h]

/-- What a slot reports of a log. -/
private def report (log : Log) (s : Market × Option Pool) : List (Market × Located BookEvent) :=
  ((s.2.bind fun p => (p.onLog log).value.applied).map fun e => (s.1, e)).toList

private theorem filter_report (log : Log) (s : Market × Option Pool) (m : Market) :
    ((report log s).filter fun e => e.1 = m) = if s.1 = m then report log s else [] := by
  unfold report
  cases s.2.bind fun p => (p.onLog log).value.applied with
  | none => simp
  | some e => by_cases hm : s.1 = m <;> simp [hm]

private theorem filter_flatMap_report {slots : List (Market × Option Pool)}
    (h : (slots.map Prod.fst).Nodup) (log : Log) (m : Market) :
    ((slots.flatMap (report log)).filter fun e => e.1 = m) =
      ((slots.find? fun s => s.1 = m).map (report log)).getD [] := by
  induction slots with
  | nil => rfl
  | cons head rest ih =>
      obtain ⟨hhead, hrest⟩ := List.nodup_cons.mp h
      rw [List.flatMap_cons, List.filter_append, filter_report, ih hrest]
      by_cases hm : head.1 = m
      · have hnone : (rest.find? fun s => s.1 = m) = none := by
          refine List.find?_eq_none.mpr fun s hs heq => hhead ?_
          have hsm : s.1 = m := by simpa using heq
          exact List.mem_map.mpr ⟨s, hs, hsm.trans hm.symm⟩
        rw [if_pos hm, hnone, List.find?_cons_of_pos (by simpa using hm)]
        simp
      · rw [if_neg hm, List.find?_cons_of_neg (by simpa using hm), List.nil_append]

/-- A market is reported at most once, with the event that its live pool applied. -/
theorem filter_onLog (h : log.address = r.deployment.orderBook) (hnodup : r.markets.Nodup)
    (m : Market) :
    ((r.onLog log).value.2.filter fun e => e.1 = m) =
      (((r.pool? m).bind fun p => (p.onLog log).value.applied).map fun e => (m, e)).toList := by
  have hfeed : (r.onLog log).value.2 = r.slots.flatMap (report log) := by
    rw [onLog_of_eq h]
    exact applied_feed log r.slots
  rw [hfeed, filter_flatMap_report hnodup, pool?, slot?]
  cases hfind : r.slots.find? fun s => s.1 = m with
  | none => rfl
  | some s =>
      obtain rfl : s.1 = m := by simpa using List.find?_some hfind
      rfl

/-- An event that is reported was applied by the live pool of its market. -/
theorem mem_onLog (hnodup : r.markets.Nodup) {e : Located BookEvent}
    (he : (m, e) ∈ (r.onLog log).value.2) :
    log.address = r.deployment.orderBook ∧
      ∃ p, r.pool? m = some p ∧ (p.onLog log).value.applied = some e := by
  by_cases h : log.address = r.deployment.orderBook
  · refine ⟨h, ?_⟩
    have hmem : (m, e) ∈ ((r.onLog log).value.2.filter fun e => e.1 = m) :=
      List.mem_filter.mpr ⟨he, by simp⟩
    rw [filter_onLog h hnodup, Option.mem_toList, Option.map_eq_some_iff] at hmem
    obtain ⟨e', happlied, heq⟩ := hmem
    obtain ⟨-, rfl⟩ := Prod.mk.inj heq
    exact Option.bind_eq_some_iff.mp happlied
  · rw [onLog_of_ne h] at he
    cases he

/-! ## Serving a pool -/

theorem seedAt_of_ok {q : Pool} {b : Book} {block : Nat}
    (h : (q.fetcher.tryFetch reader block).value = .ok b) (asked : List Request) :
    (r.seedAt missing reader q block asked).value =
      ⟨r.put q.market (some (q.seed reader block).value.1), missing,
        some (q.seed reader block).value.1, asked ++ [.batch q.fetcher.request block]⟩ := by
  simp [seedAt, Pool.seed, Pool.seedWith, Pool.restart, Pool.market, h]

theorem seedAt_of_error {q : Pool} {fault : Fault} {block : Nat}
    (h : (q.fetcher.tryFetch reader block).value = .error fault) (asked : List Request) :
    (r.seedAt missing reader q block asked).value =
      if fault.isPermanent then
        ⟨r.put q.market none, missing.insert (q.market.cacheKey r.dex), none,
          asked ++ [.batch q.fetcher.request block]⟩
      else ⟨r.put q.market (some (q.seed reader block).value.1), missing,
        some (q.seed reader block).value.1, asked ++ [.batch q.fetcher.request block]⟩ := by
  cases hp : fault.isPermanent <;>
    simp [seedAt, Pool.seed, Pool.seedWith, Pool.markFailed, Pool.market, h, hp]

/-- What can come of serving a pool. Beside the head of the chain, only the market's own batch is
ever asked for, and at most once. -/
inductive Serves (r : Registry) (missing : MissingMarkets) (reader : Reader) (p : Pool) :
    Served → Prop where
  /-- The pool is not due, or the block to seed it at could not be found out. -/
  | kept {q : Pool} {asked : List Request} (same : Pool.SameContents p q)
      (heads : ∀ x ∈ asked, x = .head) :
      Serves r missing reader p ⟨r.put p.market (some q), missing, some q, asked⟩
  /-- An attempt was made to seed the pool; it did not say that the market is missing. -/
  | attempted {q : Pool} {asked : List Request} {block : Nat}
      (same : Pool.SameContents (p.seed reader block).value.1 q)
      (found : ∀ m, (p.fetcher.tryFetch reader block).value ≠ .error (.marketNotFound m))
      (heads : ∀ x ∈ asked, x = .head) :
      Serves r missing reader p ⟨r.put p.market (some q), missing, some q,
        asked ++ [.batch p.fetcher.request block]⟩
  /-- An attempt was made, and the market does not exist. -/
  | failed {asked : List Request} {block : Nat} {m : Market}
      (notFound : (p.fetcher.tryFetch reader block).value = .error (.marketNotFound m))
      (heads : ∀ x ∈ asked, x = .head) :
      Serves r missing reader p ⟨r.put p.market none, missing.insert (p.market.cacheKey r.dex),
        none, asked ++ [.batch p.fetcher.request block]⟩

/-- The pool that comes out is what the registry holds afterwards. -/
theorem Serves.registry {p : Pool} {answer : Served} (h : Serves r missing reader p answer) :
    answer.registry = r.put p.market answer.pool := by
  cases h <;> rfl

/-- The market's key is entered if no pool comes out. -/
theorem Serves.missing_eq {p : Pool} {answer : Served} (h : Serves r missing reader p answer) :
    answer.missing =
      if answer.pool = none then missing.insert (p.market.cacheKey r.dex) else missing := by
  cases h <;> rfl

/-- No pool comes out exactly if the answer to the market's batch was that it does not exist. -/
theorem Serves.pool_eq_none_iff {p : Pool} {answer : Served}
    (h : Serves r missing reader p answer) : answer.pool = none ↔
      ∃ calls n unknown, .batch calls n ∈ answer.requests ∧
        (p.fetcher.tryFetch reader n).value = .error (.marketNotFound unknown) := by
  cases h with
  | kept same heads =>
      refine iff_of_false nofun ?_
      rintro ⟨calls, n, unknown, hmem, -⟩
      cases heads _ hmem
  | attempted same found heads =>
      refine iff_of_false nofun ?_
      rintro ⟨calls, n, unknown, hmem, hnotFound⟩
      rcases List.mem_append.mp hmem with hmem | hmem
      · cases heads _ hmem
      · obtain ⟨-, rfl⟩ := Request.batch.inj (List.mem_singleton.mp hmem)
        exact found unknown hnotFound
  | failed notFound heads =>
      exact iff_of_true rfl ⟨_, _, _, List.mem_append_right _ List.mem_cons_self, notFound⟩

/-- Serving a pool opens no order. -/
theorem Serves.idle {p q : Pool} {answer : Served} (h : Serves r missing reader p answer)
    (hidle : p.nesting = .idle) (hq : answer.pool = some q) : q.nesting = .idle := by
  cases h with
  | kept same =>
      obtain rfl := Option.some.inj hq
      exact same.nesting.symm.trans hidle
  | attempted same =>
      obtain rfl := Option.some.inj hq
      exact same.nesting.symm.trans (Pool.idle_seed hidle reader _)
  | failed => cases hq

/-- The pool may have one more attempt counted when it is seeded. -/
theorem serves_seedAt {p q : Pool} (h : Pool.SameContents p q) {asked : List Request}
    (heads : ∀ x ∈ asked, x = .head) (block : Nat) :
    Serves r missing reader p (r.seedAt missing reader q block asked).value := by
  have hseed := Pool.sameContents_seed h reader block
  have hmarket : q.market = p.market := congrArg Fetcher.market h.fetcher.symm
  cases hfetch : (q.fetcher.tryFetch reader block).value with
  | ok b =>
      have hfound : ∀ m, (p.fetcher.tryFetch reader block).value ≠ .error (.marketNotFound m) := by
        intro m
        rw [h.fetcher, hfetch]
        exact nofun
      rw [seedAt_of_ok hfetch, hmarket, ← h.fetcher]
      exact .attempted hseed hfound heads
  | error fault =>
      rw [seedAt_of_error hfetch, hmarket, ← h.fetcher]
      split
      next hp =>
        obtain ⟨m, rfl⟩ := Fault.isPermanent_iff.mp hp
        exact .failed (h.fetcher ▸ hfetch) heads
      next hp =>
        refine .attempted hseed (fun m hm => hp ?_) heads
        rw [h.fetcher, hfetch] at hm
        exact Fault.isPermanent_iff.mpr ⟨m, Except.error.inj hm⟩

theorem sameContents_dueForSeeding (r : Registry) (p : Pool) :
    Pool.SameContents p (r.dueForSeeding p).1 := by
  unfold dueForSeeding
  split
  · exact Pool.sameContents_countAttempt p
  · exact .refl p

private theorem serves_kept {p q : Pool} (h : Pool.SameContents p q) {asked : List Request}
    (heads : ∀ x ∈ asked, x = .head) :
    Serves r missing reader p ⟨r.put q.market (some q), missing, some q, asked⟩ := by
  have hmarket : q.market = p.market := congrArg Fetcher.market h.fetcher.symm
  rw [hmarket]
  exact .kept h heads

/-- Serving a pool keeps it, or seeds it, or finds that its market is missing. -/
theorem serves_serve (p : Pool) (block : Option Nat) :
    Serves r missing reader p (r.serve missing reader p block).value := by
  have hsame := sameContents_dueForSeeding r p
  have hnone : ∀ x ∈ ([] : List Request), x = .head := by simp
  have hhead : ∀ x ∈ [Request.head], x = .head := by simp
  unfold serve
  generalize r.dueForSeeding p = counted at hsame ⊢
  obtain ⟨q, due⟩ := counted
  cases due with
  | false => exact serves_kept hsame hnone
  | true =>
      cases block with
      | some block => exact serves_seedAt hsame hnone block
      | none =>
          cases hanswer : reader.head with
          | ok block =>
              simp only [resolveBlock, hanswer]
              exact serves_seedAt hsame hhead block
          | error fault =>
              simp only [resolveBlock, hanswer]
              exact serves_kept (hsame.trans (Pool.sameContents_markFailed q)) hhead

/-! ## Registries in order -/

/-- Every pool is filed under its own market and asks for what a new pool of the registry would,
and no market has two slots. -/
structure Filed (r : Registry) : Prop where
  nodup : r.markets.Nodup
  fetcher : ∀ m p, r.slot? m = some (some p) →
    p.fetcher = (Pool.new r.dex r.deployment m r.config).fetcher
  wf : ∀ m p, r.slot? m = some (some p) → p.history.Wf

theorem filed_new (dex : String) (d : Deployment) (c : PoolConfig) : (new dex d c).Filed where
  nodup := List.nodup_nil
  fetcher := nofun
  wf := nofun

theorem filed_put (h : r.Filed) {m : Market} {slot : Option Pool}
    (hslot : ∀ p, slot = some p →
      p.fetcher = (Pool.new r.dex r.deployment m r.config).fetcher ∧ p.history.Wf) :
    (r.put m slot).Filed := by
  have hheld : ∀ m' p, (r.put m slot).slot? m' = some (some p) →
      m' = m ∧ slot = some p ∨ r.slot? m' = some (some p) := by
    intro m' p hp
    rw [slot?_put] at hp
    split at hp
    next heq => exact .inl ⟨heq, Option.some.inj hp⟩
    next => exact .inr hp
  refine ⟨nodup_put h.nodup m slot, fun m' p hp => ?_, fun m' p hp => ?_⟩
  · rcases hheld m' p hp with ⟨rfl, hput⟩ | hold
    · exact (hslot p hput).1
    · exact h.fetcher m' p hold
  · rcases hheld m' p hp with ⟨rfl, hput⟩ | hold
    · exact (hslot p hput).2
    · exact h.wf m' p hold

theorem filed_onLog (h : r.Filed) (log : Log) : (r.onLog log).value.1.Filed := by
  by_cases hlog : log.address = r.deployment.orderBook
  · have hslots : ∀ m q, (r.onLog log).value.1.slot? m = some (some q) →
        ∃ p, r.slot? m = some (some p) ∧ (p.onLog log).value.pool = q := by
      intro m q hq
      rw [slot?_onLog hlog, Option.map_eq_some_iff] at hq
      obtain ⟨slot, hslot, hq⟩ := hq
      obtain ⟨p, rfl, hp⟩ := Option.map_eq_some_iff.mp hq
      exact ⟨p, hslot, hp⟩
    refine ⟨(markets_onLog r log).symm ▸ h.nodup, fun m q hq => ?_, fun m q hq => ?_⟩
    · obtain ⟨p, hp, rfl⟩ := hslots m q hq
      rw [onLog_of_eq hlog, (Pool.onLog_frame p log).fetcher]
      exact h.fetcher m p hp
    · obtain ⟨p, hp, rfl⟩ := hslots m q hq
      exact Pool.wf_onLog (h.wf m p hp) log
  · rw [onLog_of_ne hlog]
    exact h

/-! ## Answering a request -/

/-- The pool that a request for a market is served from: the one that is held, or a new one. -/
def Holds (r : Registry) (m : Market) (p : Pool) : Prop :=
  r.slot? m = some (some p) ∨ r.slot? m = none ∧ p = Pool.new r.dex r.deployment m r.config

theorem Holds.fetcher {p : Pool} (hf : r.Filed) (h : r.Holds m p) :
    p.fetcher = (Pool.new r.dex r.deployment m r.config).fetcher := by
  rcases h with hp | ⟨-, rfl⟩
  · exact hf.fetcher m p hp
  · rfl

theorem Holds.market {p : Pool} (hf : r.Filed) (h : r.Holds m p) : p.market = m :=
  congrArg Fetcher.market (h.fetcher hf)

theorem Holds.wf {p : Pool} (hf : r.Filed) (h : r.Holds m p) : p.history.Wf := by
  rcases h with hp | ⟨-, rfl⟩
  · exact hf.wf m p hp
  · exact History.wf_new _

/-- A slot that a request is served from is not one that was emptied. -/
theorem Holds.not_emptied {p : Pool} (h : r.Holds m p) : r.slot? m ≠ some none := by
  rcases h with hlive | ⟨hnone, -⟩
  · simp [hlive]
  · simp [hnone]

/-- A request for a market that is not known to be missing serves the pool that is held. -/
theorem getPool_of_holds {p : Pool} (hunknown : missing.contains (m.cacheKey r.dex) = false)
    (h : r.Holds m p) (reader : Reader) (block : Option Nat) :
    (r.getPool missing reader m block).value = (r.serve missing reader p block).value := by
  unfold getPool
  rw [hunknown]
  rcases h with hslot | ⟨hslot, rfl⟩
  · rw [hslot]
    rfl
  · rw [hslot]
    rfl

/-- What can come of a request: it is turned down, as the market is known to be missing here or
elsewhere, or it is served. -/
inductive Answers (r : Registry) (missing : MissingMarkets) (reader : Reader) (m : Market) :
    Served → Prop where
  | declined (known : missing.contains (m.cacheKey r.dex) = true ∨ r.slot? m = some none) :
      Answers r missing reader m ⟨r, missing, none, []⟩
  | served {p : Pool} {answer : Served} (unknown : missing.contains (m.cacheKey r.dex) = false)
      (holds : r.Holds m p) (serves : Serves r missing reader p answer) :
      Answers r missing reader m answer

theorem answers_getPool (r : Registry) (missing : MissingMarkets) (reader : Reader) (m : Market)
    (block : Option Nat) :
    Answers r missing reader m (r.getPool missing reader m block).value := by
  unfold getPool
  cases hknown : missing.contains (m.cacheKey r.dex) with
  | true => exact .declined (.inl hknown)
  | false =>
      cases hslot : r.slot? m with
      | none => exact .served hknown (.inr ⟨hslot, rfl⟩) (serves_serve _ block)
      | some slot =>
          cases slot with
          | none => exact .declined (.inr hslot)
          | some p => exact .served hknown (.inl hslot) (serves_serve p block)

/-- On a cold start no order is open. -/
theorem idle_of_getPool_new {dex : String} {d : Deployment} {c : PoolConfig} {block : Option Nat}
    {q : Pool} (h : ((new dex d c).getPool missing reader m block).value.pool = some q) :
    q.nesting = .idle := by
  have hanswers := answers_getPool (new dex d c) missing reader m block
  generalize ((new dex d c).getPool missing reader m block).value = answer at h hanswers
  cases hanswers with
  | declined => cases h
  | served _ holds serves =>
      rcases holds with hslot | ⟨-, rfl⟩
      · cases hslot
      · exact serves.idle rfl h

end Registry

end OfferBook
