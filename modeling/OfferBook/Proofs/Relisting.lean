import Mathlib.Data.List.Dedup
import OfferBook.Proofs.Continuity
import OfferBook.Proofs.Redelivery
import OfferBook.Proofs.Seeding

/-!
# A block listed twice

A node may list the logs of a block in any order, some of them several times, and with logs of
abandoned blocks among them. The feed leaves these out and sorts the others by index, which does not
drop what was listed twice; the pool refuses what it was given before, which does not put anything
in order. Together they see to it that only the block counts.

The proof compares a sorted listing with the logs of the block, each once and in order
(`redelivers_of_sorted`). In the listing, the repetitions of a log follow it, so that at any point
the first log that was not there before is the next one of the block. The listing is therefore the
block with redeliveries, as `Redelivers` has it, and these are without effect. Two listings of one
block are compared with the same list of logs.

## Main results

* `redelivers_of_sorted`: a sorted listing brings the logs of the block with redeliveries.
* `exists_taken`: where the events applied come from.
* `onLogs_canonical_of_lists`: what a block does to a pool does not depend on its listing.
-/

namespace OfferBook

/-- The first log stands in front of the second one in their block. -/
def Log.Before (x y : Log) : Prop := ∃ i j, x.index = some i ∧ y.index = some j ∧ i < j

theorem Log.Before.asymm {x y : Log} (h : x.Before y) : ¬ y.Before x := by
  rintro ⟨i, j, hi, hj, hij⟩
  obtain ⟨j', i', hj', hi', hji⟩ := h
  obtain rfl : i = i' := Option.some.inj (hi.symm.trans hi')
  obtain rfl : j = j' := Option.some.inj (hj.symm.trans hj')
  omega

/-- A listing of the logs of a block. Those that stand say where, each at a place of its own. -/
structure Lists (block : Nat) (listed : List Log) : Prop where
  placed : ∀ log ∈ listed, log.removed = false → log.block = some block
  indexed : ∀ log ∈ listed, log.removed = false → log.index.isSome
  distinct : ∀ x ∈ listed, ∀ y ∈ listed, x.removed = false → y.removed = false →
    x.index = y.index → x = y

/-- Whatever brings no other logs that stand is a listing of the block as well. -/
theorem Lists.of_mem {block : Nat} {listed listed' : List Log} (h : Lists block listed)
    (hmem : ∀ log, log.removed = false → log ∈ listed' → log ∈ listed) : Lists block listed' where
  placed := fun log hlog hs => h.placed log (hmem log hs hlog) hs
  indexed := fun log hlog hs => h.indexed log (hmem log hs hlog) hs
  distinct := fun x hx y hy hxs hys => h.distinct x (hmem x hxs hx) y (hmem y hys hy) hxs hys

/-- A sorted listing brings the logs of the block in order, with redeliveries. At the head of what
is left of it stands a log that was there before, or the next log of the block. -/
theorem redelivers_of_sorted {before logs listing : List Log}
    (hlogs : logs.Pairwise Log.Before)
    (hlisting : listing.Pairwise fun x y => x = y ∨ x.Before y)
    (hmem : ∀ log, log ∈ logs ↔ log ∈ listing ∧ log ∉ before) :
    Redelivers before logs listing := by
  induction listing generalizing before logs with
  | nil =>
      obtain rfl : logs = [] := List.eq_nil_iff_forall_not_mem.mpr fun log hlog =>
        List.not_mem_nil ((hmem log).mp hlog).1
      exact .done
  | cons log listing ih =>
      obtain ⟨hhead, htail⟩ := List.pairwise_cons.mp hlisting
      by_cases hbefore : log ∈ before
      · refine .again hbefore (ih hlogs htail fun l => ?_)
        rw [hmem l, List.mem_cons]
        grind
      · have hlog : log ∈ logs := (hmem log).mpr ⟨List.mem_cons_self, hbefore⟩
        match logs with
        | next :: rest =>
            obtain ⟨hnext, hrest⟩ := List.pairwise_cons.mp hlogs
            have hlisted : next ∈ log :: listing := ((hmem next).mp List.mem_cons_self).1
            -- Each of the two stands in front of all others, so they are the same log.
            obtain rfl : next = log := by
              rcases List.mem_cons.mp hlisted with h | hlater
              · exact h
              rcases List.mem_cons.mp hlog with h | hlater'
              · exact h.symm
              rcases hhead next hlater with h | h
              · exact h.symm
              · exact absurd (hnext log hlater') h.asymm
            refine .first (ih hrest htail fun l => ?_)
            have hne : l ∈ rest → l ≠ next := by
              rintro hl rfl
              exact (hnext l hl).asymm (hnext l hl)
            have hl := hmem l
            simp only [List.mem_cons] at hl ⊢
            grind

namespace Feed

variable {block : Nat} {listed : List Log}

theorem mem_canonical {log : Log} :
    log ∈ (canonical listed).value ↔ log ∈ listed ∧ log.removed = false := by
  rw [(restores_canonical listed).perm.mem_iff, List.mem_filter, Bool.not_eq_true']

/-- In the feed's order of a block, a log stands in front of the logs behind it, unless they are
the same log again. -/
theorem pairwise_canonical (h : Lists block listed) :
    (canonical listed).value.Pairwise fun x y => x = y ∨ x.Before y := by
  refine (restores_canonical listed).ordered.imp_of_mem fun {x y} hx hy hle => ?_
  obtain ⟨hx, hxs⟩ := mem_canonical.mp hx
  obtain ⟨hy, hys⟩ := mem_canonical.mp hy
  obtain ⟨i, hi⟩ := Option.isSome_iff_exists.mp (h.indexed x hx hxs)
  obtain ⟨j, hj, hij⟩ := hle i hi
  rcases Nat.eq_or_lt_of_le hij with rfl | hlt
  · exact .inl (h.distinct x hx y hy hxs hys (hi.trans hj.symm))
  · exact .inr ⟨i, j, hi, hj, hlt⟩

/-- The logs of the block, each once and in order. -/
def once (listed : List Log) : List Log := (canonical listed.dedup).value

theorem mem_once {log : Log} : log ∈ once listed ↔ log ∈ listed ∧ log.removed = false := by
  rw [once, mem_canonical, List.mem_dedup]

theorem pairwise_once (h : Lists block listed) : (once listed).Pairwise Log.Before := by
  have hlists : Lists block listed.dedup := h.of_mem fun _ _ => List.mem_dedup.mp
  have hnodup : (once listed).Nodup :=
    (restores_canonical listed.dedup).perm.nodup_iff.mpr ((List.nodup_dedup listed).filter _)
  exact (pairwise_canonical hlists).imp₂ (fun _ _ hor hne => hor.resolve_left hne) hnodup

end Feed

namespace Pool

variable {dex : String} {d : Deployment} {m : Market} {c : PoolConfig} {p : Pool} {block : Nat}

/-- An applied event is one that the log carries for the market of the pool, at its place. -/
theorem eq_locate_of_applied {log : Log} {e : Located BookEvent} (hw : p.history.Wf)
    (hblock : log.block = some block) (h : (p.onLog log).value.applied = some e) :
    ∃ event, log.event? p.market.hash = some event ∧ e = locate log block event := by
  rcases p.refuses_or_accepts log with hrefuses | ⟨latest, block', haccepts⟩
  · rw [onLog_of_refuses hrefuses] at h
    cases h
  · obtain rfl : block = block' := Option.some.inj (hblock.symm.trans haccepts.placed)
    rw [onLog_of_accepts hw haccepts] at h
    obtain ⟨event, hevent, rfl⟩ := Option.map_eq_some_iff.mp h
    exact ⟨event, hevent, rfl⟩

/-- The events applied come from some of the logs, in their order, each from a log of its own. -/
theorem exists_taken (hw : p.history.Wf) {logs : List Log}
    (hplaced : ∀ log ∈ logs, log.block = some block) :
    ∃ taken, taken.Sublist logs ∧
      List.Forall₂ (fun log e => ∃ event, log.event? p.market.hash = some event ∧
        e = locate log block event) taken (p.onLogs logs).value.2 := by
  induction logs generalizing p with
  | nil => exact ⟨[], List.Sublist.refl [], .nil⟩
  | cons log logs ih =>
      obtain ⟨hblock, hplaced⟩ := List.forall_mem_cons.mp hplaced
      obtain ⟨taken, hsub, htaken⟩ := ih (wf_onLog hw log) hplaced
      rw [(onLog_frame p log).market] at htaken
      rw [onLogs_cons]
      cases happlied : (p.onLog log).value.applied with
      | none => exact ⟨taken, hsub.cons log, htaken⟩
      | some e =>
          have hevent := eq_locate_of_applied hw hblock happlied
          exact ⟨log :: taken, hsub.cons_cons log, .cons hevent htaken⟩

/-- A listing of a block has the effect of its logs, each once and in order. -/
theorem onLogs_canonical_eq_once (p : Pool) {listed listed' : List Log} (h : Lists block listed)
    (hsame : ∀ log, log.removed = false → (log ∈ listed ↔ log ∈ listed')) :
    (p.onLogs (Feed.canonical listed').value).value = (p.onLogs (Feed.once listed)).value := by
  have h' : Lists block listed' := h.of_mem fun log hs => (hsame log hs).mpr
  have hmem (log : Log) : log ∈ Feed.once listed ↔
      log ∈ (Feed.canonical listed').value ∧ log ∉ [] := by
    rw [Feed.mem_once, Feed.mem_canonical]
    have := hsame log
    grind
  have hindexed : ∀ log ∈ Feed.once listed, log.index.isSome := fun log hlog =>
    h.indexed log (Feed.mem_once.mp hlog).1 (Feed.mem_once.mp hlog).2
  exact onLogs_of_redelivers_refused
    (redelivers_of_sorted (Feed.pairwise_once h) (Feed.pairwise_canonical h') hmem) hindexed
    fun _ hl => absurd hl List.not_mem_nil

/-- **What a block does to a pool does not depend on how its logs are listed.** Two listings of a
block in which the same logs stand, in any order, each any number of times and among any logs of
abandoned blocks, leave every pool the same, and the events applied are the same. They come from
logs of the block that stand, in the order of their indices and each from a log of its own. -/
theorem onLogs_canonical_of_lists (hp : Reachable dex d m c p) {listed listed' : List Log}
    (h : Lists block listed)
    (hsame : ∀ log, log.removed = false → (log ∈ listed ↔ log ∈ listed')) :
    let fed := (p.onLogs (Feed.canonical listed).value).value
    fed = (p.onLogs (Feed.canonical listed').value).value ∧
      ∃ taken : List Log, taken.Pairwise Log.Before ∧
        (∀ log ∈ taken, log ∈ listed ∧ log.removed = false) ∧
        List.Forall₂ (fun log e => ∃ event, log.event? p.market.hash = some event ∧
          e = locate log block event) taken fed.2 := by
  intro fed
  have honce : fed = (p.onLogs (Feed.once listed)).value :=
    onLogs_canonical_eq_once p h fun _ _ => Iff.rfl
  have hplaced : ∀ log ∈ Feed.once listed, log.block = some block := fun log hlog =>
    h.placed log (Feed.mem_once.mp hlog).1 (Feed.mem_once.mp hlog).2
  obtain ⟨taken, hsub, htaken⟩ := exists_taken hp.wf hplaced
  refine ⟨honce.trans (onLogs_canonical_eq_once p h hsame).symm, taken,
    (Feed.pairwise_once h).sublist hsub, fun log hlog => Feed.mem_once.mp (hsub.subset hlog), ?_⟩
  rw [honce]
  exact htaken

/-- An order is listed backwards, with its write twice and a log of an abandoned block, and again
with its start twice. -/
theorem onLogs_canonical_of_lists_order :
    let market : Market := ⟨0xaa, 0xbb, 1⟩
    let served : InMemoryReader :=
      ⟨10, [⟨market, 0, [.usual 9 ⟨-1, by decide, by decide⟩ 5]⟩], false, false⟩
    let p := ((new "mangrove" .arbitrum market .default).seed served.reader 10).value.1
    let log (index : Nat) (event : BookEvent) : Log :=
      ((⟨0xdd, market, 11, 3, index⟩ : Emitter).emitBook event).1
    let start := log 0 .orderStart
    let write := log 1 (.offerWrite 9 0xee ⟨2, by decide, by decide⟩ 4 5 6)
    let complete := log 2 .orderComplete
    let listed := [complete, write, start.asRemoved, write, start]
    let listed' := [start, start, complete, write]
    Lists 11 listed ∧ (∀ log, log.removed = false → (log ∈ listed ↔ log ∈ listed')) ∧
      (p.onLogs (Feed.canonical listed).value).value =
        (p.onLogs (Feed.canonical listed').value).value := by
  intro market served p log start write complete listed listed'
  have hreachable : Reachable "mangrove" .arbitrum market .default p := .seed .new _ 10
  have hstanding : ∀ l ∈ listed, l.removed = false → l = start ∨ l = write ∨ l = complete := by
    intro l hl hs
    simp only [listed, List.mem_cons, List.not_mem_nil, or_false] at hl
    rcases hl with rfl | rfl | rfl | rfl | rfl
    · exact .inr (.inr rfl)
    · exact .inr (.inl rfl)
    · cases hs
    · exact .inr (.inl rfl)
    · exact .inl rfl
  have hlists : Lists 11 listed := by
    refine ⟨fun l hl hs => ?_, fun l hl hs => ?_, fun x hx y hy hxs hys hindex => ?_⟩
    · rcases hstanding l hl hs with rfl | rfl | rfl <;> rfl
    · rcases hstanding l hl hs with rfl | rfl | rfl <;> rfl
    · rcases hstanding x hx hxs with rfl | rfl | rfl <;>
        rcases hstanding y hy hys with rfl | rfl | rfl <;> first | rfl | cases hindex
  have hsame : ∀ log, log.removed = false → (log ∈ listed ↔ log ∈ listed') := by
    intro l hs
    refine ⟨fun hl => ?_, fun hl => ?_⟩
    · rcases hstanding l hl hs with rfl | rfl | rfl <;> simp [listed']
    · simp only [listed', List.mem_cons, List.not_mem_nil, or_false] at hl
      rcases hl with rfl | rfl | rfl | rfl <;> simp [listed]
  exact ⟨hlists, hsame, (onLogs_canonical_of_lists hreachable hlists hsame).1⟩

end Pool

end OfferBook
