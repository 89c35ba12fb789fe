import OfferBook.Proofs.MissingMarkets

/-!
# The views of a market

A registry shows a market in four ways: by its live pool, in the list of pools, in the report of a
log, and in what a request for it comes to. The first three go by the registry's own slots, and
they always agree (`hides_iff`). A request looks at the set of missing markets first, which other
registries write to as well.

So the views of a market part where it is live in one registry and another one, of an exchange of
the same lower-case key, finds that it does not exist: from then on every request for it is turned
down, while the pool is still listed and still follows the logs. Everywhere else they agree.

## Main results

* `mem_pools_iff`, `mem_onLog_iff`: listed and reported is what is live.
* `views_run`: what the views show of a market after any run, and when they agree.
-/

namespace OfferBook

namespace Registry

variable {r : Registry} {m : Market} {p : Pool} {log : Log}

/-! ## The registry's own views -/

/-- Nothing is to be seen of a market: it has no live pool, none is listed, and no log is reported
for it. -/
structure Hides (r : Registry) (m : Market) : Prop where
  pool : r.pool? m = none
  listed : ∀ p ∈ r.pools, p.market ≠ m
  reported : ∀ log e, (m, e) ∉ (r.onLog log).value.2

/-- What a slot holds is found by its market, since no market has two slots. -/
private theorem slot?_of_mem (hnodup : r.markets.Nodup) {slot : Option Pool}
    (hmem : (m, slot) ∈ r.slots) : r.slot? m = some slot := by
  obtain ⟨dex, deployment, config, slots⟩ := r
  simp only [markets, slot?] at *
  induction slots with
  | nil => cases hmem
  | cons head rest ih =>
      obtain ⟨hhead, hrest⟩ := List.nodup_cons.mp hnodup
      rcases List.mem_cons.mp hmem with rfl | hmem
      · rw [List.find?_cons_of_pos (by simp), Option.map_some]
      · have hne : head.1 ≠ m := fun heq => hhead (heq ▸ List.mem_map_of_mem hmem)
        rw [List.find?_cons_of_neg (by simpa using hne)]
        exact ih hrest hmem

/-- The listed pool of a market is the live one. -/
theorem mem_pools_iff (hf : r.Filed) : p ∈ r.pools ∧ p.market = m ↔ r.pool? m = some p := by
  rw [pool?_eq_some_iff]
  constructor
  · rintro ⟨hmem, hmarket⟩
    obtain ⟨⟨m', slot⟩, hslot, rfl⟩ := List.mem_filterMap.mp hmem
    have hheld : r.slot? m' = some (some p) := slot?_of_mem hf.nodup hslot
    obtain rfl : m' = m := (Holds.market hf (.inl hheld)).symm.trans hmarket
    exact hheld
  · intro hslot
    obtain ⟨s, hfind, hs⟩ := Option.map_eq_some_iff.mp hslot
    exact ⟨List.mem_filterMap.mpr ⟨s, List.mem_of_find?_eq_some hfind, hs⟩,
      Holds.market hf (.inl hslot)⟩

/-- A log is reported for a market with the event that the live pool applies. -/
theorem mem_onLog_iff (hnodup : r.markets.Nodup) {e : Located BookEvent} :
    (m, e) ∈ (r.onLog log).value.2 ↔ log.address = r.deployment.orderBook ∧
      ∃ p, r.pool? m = some p ∧ (p.onLog log).value.applied = some e := by
  refine ⟨mem_onLog hnodup, ?_⟩
  rintro ⟨hlog, p, hp, happlied⟩
  have hreported : (m, e) ∈ (r.onLog log).value.2.filter fun e => e.1 = m := by
    rw [filter_onLog hlog hnodup, hp, Option.bind_some, happlied]
    exact List.mem_singleton.mpr rfl
  exact (List.mem_filter.mp hreported).1

/-- The registry's own views agree: a market without a live pool is hidden from all of them. -/
theorem hides_iff (hf : r.Filed) : r.Hides m ↔ r.pool? m = none := by
  refine ⟨Hides.pool, fun hnone => ⟨hnone, fun p hmem hmarket => ?_, fun log e hmem => ?_⟩⟩
  · cases hnone.symm.trans ((mem_pools_iff hf).mp ⟨hmem, hmarket⟩)
  · obtain ⟨-, p, hp, -⟩ := (mem_onLog_iff hf.nodup).mp hmem
    cases hnone.symm.trans hp

/-- A request that is not turned down is served from the live pool. -/
theorem serves_of_live {missing : MissingMarkets} (hp : r.pool? m = some p)
    (hunknown : missing.contains (m.cacheKey r.dex) = false) (reader : Reader)
    (block : Option Nat) :
    Serves r missing reader p (r.getPool missing reader m block).value := by
  rw [getPool_of_holds hunknown (.inl (pool?_eq_some_iff.mp hp))]
  exact serves_serve p block

end Registry

namespace Registries

variable {ι : Type} [DecidableEq ι] {start s : Registries ι} {actions : List (Action ι)} {i : ι}
  {m : Market}

/-- The set holds the key of a market exactly if some registry of an exchange of the same
lower-case key found the market missing. -/
theorem Records.known_iff (h : Records start actions s) :
    s.missing.contains (m.cacheKey (start.member i).dex) = true ↔
      ∃ j, Text.lowercase (start.member j).dex = Text.lowercase (start.member i).dex ∧
        start.Failed actions j m := by
  rw [h.missing]
  constructor
  · rintro ⟨j, m', hfailed, hkey⟩
    obtain ⟨hlower, rfl⟩ := Market.eq_of_cacheKey_eq hkey
    exact ⟨j, hlower.symm, hfailed⟩
  · rintro ⟨j, hlower, hfailed⟩
    exact ⟨j, m, hfailed, Market.cacheKey_of_lowercase_eq hlower.symm m⟩

/-- A market that the registry itself found missing is hidden from all of its views. -/
theorem Records.hides (h : Records start actions s) (hfailed : start.Failed actions i m) :
    (s.member i).Hides m := by
  rw [Registry.hides_iff (h.filed i), Registry.pool?, (h.emptied i m).mpr hfailed]
  rfl

/-- **Where the views of a market agree.** After any run of registries that share a set, empty at
first, a registry's own views of a market show the same: the pool that is live is the one that is
listed, and what it applies of a log is reported. A market that the registry itself found missing
is hidden from all of them, and its key is in the set. A request agrees with the other views
exactly if no registry of an exchange of the same lower-case key found a market missing that is
live here: then, and only then, what is in the set is hidden. Of a live market every request is
turned down at once if the market is in the set, and is served from the live pool otherwise. -/
theorem views_run (dex : ι → String) (d : ι → Deployment) (c : ι → PoolConfig)
    (actions : List (Action ι)) :
    let start := new dex d c
    let s := start.run actions
    ∀ i m,
      let r := s.member i
      let known := s.missing.contains (m.cacheKey (dex i))
      (r.Hides m ↔ r.pool? m = none) ∧
        (start.Failed actions i m → r.Hides m ∧ known = true) ∧
        ((known = true → r.Hides m) ↔
          ((r.pool? m).isSome → ∀ j, Text.lowercase (dex j) = Text.lowercase (dex i) →
            ¬ start.Failed actions j m)) ∧
        ∀ p, r.pool? m = some p →
          (p ∈ r.pools ∧ p.market = m) ∧
            (∀ log e, (m, e) ∈ (r.onLog log).value.2 ↔
              log.address = r.deployment.orderBook ∧ (p.onLog log).value.applied = some e) ∧
            (known = true → ∀ reader block, r.Declines s.missing reader m block) ∧
            (known = false → ∀ reader block,
              Registry.Serves r s.missing reader p (r.getPool s.missing reader m block).value) := by
  intro start s i m r known
  have hrecords : Records start actions s := records_run (records_new dex d c) actions
  have hf : r.Filed := hrecords.filed i
  have hdex : r.dex = dex i := hrecords.dex i
  have hknown : known = true ↔
      ∃ j, Text.lowercase (dex j) = Text.lowercase (dex i) ∧ start.Failed actions j m :=
    hrecords.known_iff
  refine ⟨Registry.hides_iff hf, fun hfailed => ?_, ?_, fun p hp => ⟨?_, fun log e => ?_, ?_, ?_⟩⟩
  · exact ⟨hrecords.hides hfailed, hknown.mpr ⟨i, rfl, hfailed⟩⟩
  · rw [Registry.hides_iff hf, hknown]
    constructor
    · intro hhides hlive j hlower hfailed
      rw [hhides ⟨j, hlower, hfailed⟩] at hlive
      cases hlive
    · rintro hagree ⟨j, hlower, hfailed⟩
      cases hpool : r.pool? m with
      | none => rfl
      | some p => exact absurd hfailed (hagree (by simp [hpool]) j hlower)
  · exact (Registry.mem_pools_iff hf).mpr hp
  · rw [Registry.mem_onLog_iff hf.nodup]
    refine and_congr_right fun _ => ⟨?_, fun happlied => ⟨p, hp, happlied⟩⟩
    rintro ⟨q, hq, happlied⟩
    obtain rfl : p = q := Option.some.inj (hp.symm.trans hq)
    exact happlied
  · exact fun hmissing reader block => Registry.declines_iff.mpr (.inl (hdex ▸ hmissing))
  · exact fun hunknown reader block =>
      Registry.serves_of_live hp (hdex ▸ hunknown) reader block

/-- A registry holds the pool of a market that the reader of another one, of the same exchange,
does not know. Requests to the first registry are turned down once the second one was asked, while
the pool is still listed and an offer that is withdrawn is still reported. -/
theorem views_part_when_found_missing_elsewhere :
    let market : Market := ⟨0xaa, 0xbb, 1⟩
    let served : InMemoryReader :=
      ⟨10, [⟨market, 0, [.usual 9 ⟨-1, by decide, by decide⟩ 5]⟩], false, false⟩
    let actions : List (Action Bool) :=
      [.request true served.reader market (some 10),
        .request false InMemoryReader.empty.reader market (some 10)]
    let s := (new (fun _ => "mangrove") (fun _ => .arbitrum) (fun _ => .default)).run actions
    let retract := ((Emitter.new market 11).emitBook (.offerRetract 9)).1
    s.missing.contains (market.cacheKey "mangrove") = true ∧
      (∀ reader block, (s.member true).Declines s.missing reader market block) ∧
      ¬ (s.member true).Hides market ∧
      ∃ p, (s.member true).pool? market = some p ∧ p.isReady = true ∧
        (p ∈ (s.member true).pools ∧ p.market = market) ∧
        ∃ e, (market, e) ∈ ((s.member true).onLog retract).value.2 := by
  intro market served actions s retract
  have hrecords := records_run (records_new (fun _ => "mangrove") (fun _ => .arbitrum)
    (fun _ => .default)) actions
  have hfailed : (new (fun _ => "mangrove") (fun _ => .arbitrum) (fun _ => .default)).Failed
      actions false market :=
    ⟨[_], _, [], rfl, _, _, rfl,
      (Pool.new "mangrove" .arbitrum market .default).fetcher.request, 10, market,
      by decide +kernel, by decide +kernel⟩
  have hknown : s.missing.contains (market.cacheKey "mangrove") = true :=
    (hrecords.known_iff (i := true)).mpr ⟨false, rfl, hfailed⟩
  have hstate : ((s.member true).pool? market).map
      (fun p => (p.isReady, p.latest?, p.seededAt, p.lastLog)) =
        some (true, some ⟨10, 0,
          [⟨9, ⟨⟨-1, by decide, by decide⟩, 5, none, none⟩, ⟨0xbb, 150000, 300, 3⟩⟩]⟩,
          some 10, none) := by
    decide +kernel
  have hbook : retract.address = (s.member true).deployment.orderBook := by decide +kernel
  have hevent : retract.event? market.hash = some (.offerRetract 9) :=
    (Emitter.new market 11).event?_emitBook (.offerRetract 9)
  have hplaced : retract.block = some 11 := rfl
  have hstanding : retract.removed = false := rfl
  have hf : (s.member true).Filed := hrecords.filed true
  have hdex : (s.member true).dex = "mangrove" := hrecords.dex true
  -- From here on nothing evaluates the log or the registries.
  clear_value retract s
  obtain ⟨p, hp, hnotes⟩ := Option.map_eq_some_iff.mp hstate
  simp only [Prod.mk.injEq] at hnotes
  obtain ⟨hready, hlatest, hseeded, hlast⟩ := hnotes
  have hlisted := (Registry.mem_pools_iff hf).mpr hp
  have hwf : p.history.Wf := hf.wf market p (Registry.pool?_eq_some_iff.mp hp)
  have haccepts : p.Accepts retract _ 11 :=
    ⟨hplaced, hstanding, hlatest, by simp [Pool.reflects, hseeded, hlast]⟩
  have happlied : (p.onLog retract).value.applied =
      some (Pool.locate retract 11 (.offerRetract 9)) := by
    rw [Pool.onLog_of_accepts hwf haccepts, hlisted.2, hevent]
    rfl
  refine ⟨hknown, fun reader block => ?_, fun hhides => ?_, p, hp, hready, hlisted, _,
    (Registry.mem_onLog_iff hf.nodup).mpr ⟨hbook, p, hp, happlied⟩⟩
  · exact Registry.declines_iff.mpr (.inl (hdex ▸ hknown))
  · cases hhides.pool.symm.trans hp

end Registries

end OfferBook
