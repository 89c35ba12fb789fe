import Mathlib.Data.List.Induction
import Mathlib.Logic.Function.Basic
import OfferBook.Proofs.CacheKey
import OfferBook.Proofs.Independence

/-!
# Missing markets

An attempt to seed a pool may find that its market does not exist. The registry then keeps an
empty slot for the market and enters the market's cache key in a set that it may share with any
number of other registries. Both are for good: nothing ever fills an empty slot or takes a key
out of the set.

`Registries` are registries that share one set, whose requests and logs come in any order. After
any run, the slots that are empty and the keys in the set are those of the failures there were
(`Records`), no more and no less. Since a key tells exchange and market (`eq_of_cacheKey_eq`), no
market is ever taken for another one that is missing.

## Main results

* `declines_iff`: when a request is turned down at once.
* `records_run`: what any run leaves behind of the failures there were.
* `missing_run`: a market is turned down exactly after such a failure, and then for good.
-/

namespace OfferBook

namespace Registry

variable {r : Registry} {missing : MissingMarkets} {reader : Reader} {m : Market}
  {block : Option Nat}

/-! ## One request -/

/-- A request leads to an attempt to seed the pool, and the reader says that there is no such
market. -/
def FailsAsMissing (r : Registry) (missing : MissingMarkets) (reader : Reader) (m : Market)
    (block : Option Nat) : Prop :=
  ∃ calls n unknown, .batch calls n ∈ (r.getPool missing reader m block).value.requests ∧
    ((Pool.new r.dex r.deployment m r.config).fetcher.tryFetch reader n).value =
      .error (.marketNotFound unknown)

/-- A request gets no pool and asks the reader nothing. -/
def Declines (r : Registry) (missing : MissingMarkets) (reader : Reader) (m : Market)
    (block : Option Nat) : Prop :=
  (r.getPool missing reader m block).value.pool = none ∧
    (r.getPool missing reader m block).value.requests = []

/-- A request is turned down at once if the market is known to be missing, here or elsewhere. -/
theorem declines_iff : r.Declines missing reader m block ↔
    missing.contains (m.cacheKey r.dex) = true ∨ r.slot? m = some none := by
  unfold Declines
  have hanswers := answers_getPool r missing reader m block
  generalize (r.getPool missing reader m block).value = answer at hanswers ⊢
  cases hanswers with
  | declined known => exact iff_of_true ⟨rfl, rfl⟩ known
  | served unknown holds serves =>
      refine iff_of_false ?_ ?_
      · rintro ⟨hpool, hrequests⟩
        obtain ⟨calls, n, -, hsent, -⟩ := serves.pool_eq_none_iff.mp hpool
        rw [hrequests] at hsent
        cases hsent
      · rintro (hknown | hslot)
        · exact Bool.false_ne_true (unknown.symm.trans hknown)
        · exact holds.not_emptied hslot

/-- What a request leaves behind: after such a failure the market's key and an empty slot, and
otherwise no key and no empty slot that was not there before. -/
theorem getPool_records (hf : r.Filed) :
    let answer := (r.getPool missing reader m block).value
    (r.FailsAsMissing missing reader m block ∧
        answer.missing = missing.insert (m.cacheKey r.dex) ∧
        answer.registry.slot? m = some none) ∨
      (¬ r.FailsAsMissing missing reader m block ∧ answer.missing = missing ∧
        (answer.registry.slot? m = some none ↔ r.slot? m = some none)) := by
  simp only [FailsAsMissing]
  have hanswers := answers_getPool r missing reader m block
  generalize (r.getPool missing reader m block).value = answer at hanswers ⊢
  cases hanswers with
  | declined known => exact .inr ⟨by simp, rfl, Iff.rfl⟩
  | served unknown holds serves =>
      rw [← holds.fetcher hf, ← serves.pool_eq_none_iff, serves.missing_eq, serves.registry,
        holds.market hf, slot?_put, if_pos rfl]
      by_cases hpool : answer.pool = none
      · exact .inl ⟨hpool, if_pos hpool, congrArg some hpool⟩
      · refine .inr ⟨hpool, if_neg hpool, iff_of_false ?_ holds.not_emptied⟩
        exact fun hslot => hpool (Option.some.inj hslot)

/-- Feeding a log neither empties a slot nor fills one. -/
theorem emptied_onLog {log : Log} :
    (r.onLog log).value.1.slot? m = some none ↔ r.slot? m = some none := by
  by_cases hlog : log.address = r.deployment.orderBook
  · rw [slot?_onLog hlog]
    simp
  · rw [onLog_of_ne hlog]

end Registry

/-! ## Registries that share a set -/

/-- Registries, and what is known of missing markets to all of them. -/
structure Registries (ι : Type) where
  member : ι → Registry
  missing : MissingMarkets

namespace Registries

variable {ι : Type} {start s : Registries ι} {i j : ι} {m : Market}

/-- Registries without pools, and no market known to be missing. -/
def new (dex : ι → String) (d : ι → Deployment) (c : ι → PoolConfig) : Registries ι :=
  ⟨fun i => Registry.new (dex i) (d i) (c i), .empty⟩

/-- What can be done to the registries. -/
inductive Action (ι : Type) where
  /-- A registry is asked for a market. -/
  | request (i : ι) (reader : Reader) (m : Market) (block : Option Nat)
  /-- A log is fed to a registry. -/
  | feed (i : ι) (log : Log)

/-- An action by which a registry finds that a market does not exist. -/
def FailsAsMissing (s : Registries ι) (j : ι) (m : Market) (a : Action ι) : Prop :=
  ∃ reader block, a = .request j reader m block ∧
    (s.member j).FailsAsMissing s.missing reader m block

theorem failsAsMissing_request {i : ι} {reader : Reader} {m m' : Market} {block : Option Nat} :
    s.FailsAsMissing j m (.request i reader m' block) ↔
      j = i ∧ m = m' ∧ (s.member i).FailsAsMissing s.missing reader m' block := by
  constructor
  · rintro ⟨reader, block, haction, hfails⟩
    obtain ⟨rfl, rfl, rfl, rfl⟩ := Action.request.inj haction
    exact ⟨rfl, rfl, hfails⟩
  · rintro ⟨rfl, rfl, hfails⟩
    exact ⟨reader, block, rfl, hfails⟩

theorem not_failsAsMissing_feed {i : ι} {log : Log} : ¬ s.FailsAsMissing j m (.feed i log) :=
  fun ⟨_, _, haction, _⟩ => nomatch haction

/-! ## What an action leaves behind -/

variable [DecidableEq ι]

/-- The registries after an action on one of them. -/
def act (s : Registries ι) : Action ι → Registries ι
  | .request i reader m block =>
    let answer := ((s.member i).getPool s.missing reader m block).value
    ⟨Function.update s.member i answer.registry, answer.missing⟩
  | .feed i log => { s with member := Function.update s.member i ((s.member i).onLog log).value.1 }

/-- The registries after a list of actions. -/
def run (s : Registries ι) (actions : List (Action ι)) : Registries ι := actions.foldl act s

theorem run_concat (s : Registries ι) (actions : List (Action ι)) (a : Action ι) :
    s.run (actions ++ [a]) = (s.run actions).act a := by
  simp [run]

/-- In the course of the actions the registry found that the market does not exist. -/
def Failed (start : Registries ι) (actions : List (Action ι)) (j : ι) (m : Market) : Prop :=
  ∃ before a after, actions = before ++ a :: after ∧ (start.run before).FailsAsMissing j m a

theorem failed_concat {actions : List (Action ι)} {a : Action ι} :
    start.Failed (actions ++ [a]) j m ↔
      start.Failed actions j m ∨ (start.run actions).FailsAsMissing j m a := by
  constructor
  · rintro ⟨before, b, after, hsplit, hfails⟩
    rcases List.eq_nil_or_concat after with rfl | ⟨after, last, rfl⟩
    · obtain ⟨rfl, hlast⟩ := List.append_inj' hsplit rfl
      obtain rfl : a = b := by simpa using hlast
      exact .inr hfails
    · have hsplit' : actions ++ [a] = (before ++ b :: after) ++ [last] := by simpa using hsplit
      exact .inl ⟨before, b, after, (List.append_inj' hsplit' rfl).1, hfails⟩
  · rintro (⟨before, b, after, rfl, hfails⟩ | hfails)
    · exact ⟨before, b, after ++ [a], by simp, hfails⟩
    · exact ⟨actions, a, [], rfl, hfails⟩

/-- An action on the registries is none on a member or an action on it. -/
theorem member_act (s : Registries ι) (a : Action ι) (j : ι) :
    (s.act a).member j = s.member j ∨ ∃ b, (s.act a).member j = (s.member j).act b := by
  cases a with
  | request i reader m block =>
      by_cases hj : j = i
      · subst hj
        exact .inr ⟨.request s.missing reader m block, by simp [act, Registry.act]⟩
      · exact .inl (by simp [act, hj])
  | feed i log =>
      by_cases hj : j = i
      · subst hj
        exact .inr ⟨.feed log, by simp [act, Registry.act]⟩
      · exact .inl (by simp [act, hj])

/-- An action by which no market is found missing leaves the set as it is. -/
theorem missing_act (hf : ∀ i, (s.member i).Filed) {a : Action ι}
    (h : ∀ j m, ¬ s.FailsAsMissing j m a) : (s.act a).missing = s.missing := by
  cases a with
  | feed i log => rfl
  | request i reader m block =>
      rcases Registry.getPool_records (hf i) with ⟨hfails, -, -⟩ | ⟨-, hmissing, -⟩
      · exact absurd (failsAsMissing_request.mpr ⟨rfl, rfl, hfails⟩) (h i m)
      · exact hmissing

/-- The keys in the set after an action: those before, and that of a market just found missing. -/
theorem contains_act (hf : ∀ i, (s.member i).Filed) (a : Action ι) (key : String) :
    (s.act a).missing.contains key = true ↔
      s.missing.contains key = true ∨
        ∃ j m, s.FailsAsMissing j m a ∧ key = m.cacheKey (s.member j).dex := by
  cases a with
  | feed i log => simp [act, not_failsAsMissing_feed]
  | request i reader m block =>
      simp only [failsAsMissing_request, act]
      rcases Registry.getPool_records (hf i) with ⟨hfails, hmissing, -⟩ | ⟨hfound, hmissing, -⟩
      · rw [hmissing, MissingMarkets.contains_insert, Bool.or_eq_true, beq_iff_eq, or_comm]
        refine or_congr_right ⟨fun hkey => ⟨i, m, ⟨rfl, rfl, hfails⟩, hkey⟩, ?_⟩
        rintro ⟨j, m', ⟨rfl, rfl, -⟩, hkey⟩
        exact hkey
      · rw [hmissing]
        refine (or_iff_left ?_).symm
        rintro ⟨j, m', ⟨rfl, rfl, hfails⟩, -⟩
        exact hfound hfails

/-- The empty slots after an action: those before, and that of a market just found missing. -/
theorem emptied_act (hf : ∀ i, (s.member i).Filed) (a : Action ι) (j : ι) (m : Market) :
    ((s.act a).member j).slot? m = some none ↔
      (s.member j).slot? m = some none ∨ s.FailsAsMissing j m a := by
  cases a with
  | feed i log =>
      rw [or_iff_left not_failsAsMissing_feed]
      by_cases hj : j = i
      · subst hj
        simpa [act] using Registry.emptied_onLog
      · simp [act, hj]
  | request i reader m' block =>
      rw [failsAsMissing_request]
      by_cases hj : j = i
      · subst hj
        simp only [act, Function.update_self, true_and]
        by_cases hm : m = m'
        · subst hm
          rcases Registry.getPool_records (hf j) with ⟨hfails, -, hslot⟩ | ⟨hfound, -, hslot⟩
          · exact iff_of_true hslot (.inr ⟨rfl, hfails⟩)
          · exact hslot.trans (or_iff_left fun hfails => hfound hfails.2).symm
        · rw [Registry.slot?_getPool_of_ne (hf j) hm]
          exact (or_iff_left fun hfails => hm hfails.1).symm
      · simp [act, hj]

/-! ## Runs -/

/-- The registries keep record of the failures there were: their empty slots and the keys in the
set are those of the markets found missing. -/
structure Records (start : Registries ι) (actions : List (Action ι)) (s : Registries ι) :
    Prop where
  filed : ∀ i, (s.member i).Filed
  dex : ∀ i, (s.member i).dex = (start.member i).dex
  missing : ∀ key, s.missing.contains key = true ↔
    ∃ j m, start.Failed actions j m ∧ key = m.cacheKey (start.member j).dex
  emptied : ∀ j m, (s.member j).slot? m = some none ↔ start.Failed actions j m

theorem not_failed_nil : ¬ start.Failed [] j m := by
  rintro ⟨before, a, after, hsplit, -⟩
  simp at hsplit

theorem records_new (dex : ι → String) (d : ι → Deployment) (c : ι → PoolConfig) :
    Records (new dex d c) [] (new dex d c) where
  filed := fun i => Registry.filed_new _ _ _
  dex := fun i => rfl
  missing := by
    refine fun key => iff_of_false ?_ ?_
    · simp [new, MissingMarkets.contains, MissingMarkets.empty]
    · rintro ⟨j, m, hfailed, -⟩
      exact not_failed_nil hfailed
  emptied := fun j m => iff_of_false nofun not_failed_nil

theorem records_act {actions : List (Action ι)} (h : Records start actions (start.run actions))
    (a : Action ι) : Records start (actions ++ [a]) (start.run (actions ++ [a])) := by
  rw [run_concat]
  refine
    { filed := fun i => ?_
      dex := fun i => ?_
      missing := fun key => ?_
      emptied := fun j m => ?_ }
  · rcases member_act (start.run actions) a i with hsame | ⟨b, hact⟩
    · exact hsame ▸ h.filed i
    · exact hact ▸ Registry.filed_act (h.filed i) b
  · rw [← h.dex i]
    rcases member_act (start.run actions) a i with hsame | ⟨b, hact⟩
    · rw [hsame]
    · obtain ⟨slots, hslots⟩ := Registry.setting_act ((start.run actions).member i) b
      rw [hact, hslots]
  · rw [contains_act h.filed, h.missing]
    simp only [failed_concat, h.dex]
    constructor
    · rintro (⟨j, m, hfailed, hkey⟩ | ⟨j, m, hfails, hkey⟩)
      · exact ⟨j, m, .inl hfailed, hkey⟩
      · exact ⟨j, m, .inr hfails, hkey⟩
    · rintro ⟨j, m, hfailed | hfails, hkey⟩
      · exact .inl ⟨j, m, hfailed, hkey⟩
      · exact .inr ⟨j, m, hfails, hkey⟩
  · rw [emptied_act h.filed, h.emptied, failed_concat]

/-- Every run leaves behind just what there was of failures. -/
theorem records_run (h : Records start [] start) (actions : List (Action ι)) :
    Records start actions (start.run actions) := by
  induction actions using List.reverseRecOn with
  | nil => exact h
  | append_singleton actions a ih => exact records_act ih a

/-- **Missing markets are turned down for good, and no other market ever is.** After any run of
registries that share a set, empty at first, a request for a market gets no pool and asks the
reader nothing exactly if some registry of an exchange of the same lower-case key found, in the
course of the run, that this market does not exist. The registry that found it has no pool of the
market and reports nothing of it. An action by which no market is found missing, whatever else
fails, leaves the set as it is. -/
theorem missing_run (dex : ι → String) (d : ι → Deployment) (c : ι → PoolConfig)
    (actions : List (Action ι)) :
    let start := new dex d c
    let s := start.run actions
    (∀ i reader m block, (s.member i).Declines s.missing reader m block ↔
      ∃ j, Text.lowercase (dex j) = Text.lowercase (dex i) ∧ start.Failed actions j m) ∧
      (∀ j m, start.Failed actions j m →
        (s.member j).pool? m = none ∧ ∀ log e, (m, e) ∉ ((s.member j).onLog log).value.2) ∧
      ∀ a, (∀ j m, ¬ s.FailsAsMissing j m a) → (s.act a).missing = s.missing := by
  intro start s
  have hrecords : Records start actions s := records_run (records_new dex d c) actions
  have hdex : ∀ i, (s.member i).dex = dex i := hrecords.dex
  refine ⟨fun i reader m block => ?_, fun j m hfailed => ?_, fun a ha => ?_⟩
  · rw [Registry.declines_iff, hrecords.missing, hrecords.emptied, hdex]
    constructor
    · rintro (⟨j, m', hfailed, hkey⟩ | hfailed)
      · obtain ⟨hlower, rfl⟩ := Market.eq_of_cacheKey_eq hkey
        exact ⟨j, hlower.symm, hfailed⟩
      · exact ⟨i, rfl, hfailed⟩
    · rintro ⟨j, hlower, hfailed⟩
      exact .inl ⟨j, m, hfailed, Market.cacheKey_of_lowercase_eq hlower.symm m⟩
  · have hnone : (s.member j).pool? m = none := by
      rw [Registry.pool?, (hrecords.emptied j m).mpr hfailed]
      rfl
    refine ⟨hnone, fun log e hmem => ?_⟩
    obtain ⟨-, p, hp, -⟩ := Registry.mem_onLog (hrecords.filed j).nodup hmem
    rw [hnone] at hp
    cases hp
  · exact missing_act hrecords.filed ha

/-- One of two registries finds that a market is missing; the other one, whose exchange is written
in other letters, is spared the attempt. -/
theorem missing_run_shared :
    let market : Market := ⟨0xaa, 0xbb, 1⟩
    let reader : Reader := InMemoryReader.empty.reader
    let dex : Bool → String := fun i => if i then "Mangrove" else "MANGROVE"
    let actions : List (Action Bool) := [.request true reader market (some 10)]
    let s := (new dex (fun _ => .arbitrum) (fun _ => .default)).run actions
    (s.member false).Declines s.missing reader market none ∧
      (s.member true).pool? market = none := by
  intro market reader dex actions s
  obtain ⟨hdeclines, hgone, -⟩ := missing_run dex (fun _ => .arbitrum) (fun _ => .default) actions
  have hfetch : (Pool.new (dex true) .arbitrum market .default).fetcher.tryFetch reader 10 =
      ⟨.error (.marketNotFound market), []⟩ := by
    decide +kernel
  have hsent : .batch (Pool.new (dex true) .arbitrum market .default).fetcher.request 10 ∈
      ((Registry.new (dex true) .arbitrum .default).getPool .empty reader market
        (some 10)).value.requests := by
    decide +kernel
  have hfailed : (new dex (fun _ => .arbitrum) (fun _ => .default)).Failed actions true market :=
    ⟨[], _, [], rfl, reader, some 10, rfl, _, 10, market, hsent, congrArg Traced.value hfetch⟩
  exact ⟨(hdeclines false reader market none).mpr ⟨true, by decide +kernel, hfailed⟩,
    (hgone true market hfailed).1⟩

end Registries

end OfferBook
