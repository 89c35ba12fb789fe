import Mathlib.Data.List.TakeWhile
import OfferBook.Proofs.Emission

/-!
# The past of a pool

Whatever log comes, a pool never goes back behind what it has told. An accepted log stands no
earlier than the latest snapshot, so the snapshot it leaves is stored either in the place of the
latest one or in front of it, and the way in which a history corrects itself is never taken. The
snapshots of earlier blocks are not touched, except that a full history which takes in a new block
lets its oldest snapshot go.

To those who ask, this means that the answer for a block before the latest one stays what it is
until it is not known any more, however many logs follow (`KeepsAnswers`).

`Ignores` lists the logs that leave a pool as it is. The list is complete for pools whose notes are
consistent: every log that is not on it is taken into account.

## Main results

* `mem_insert_or_oldest`, `atOrBefore?_insert_of_lt`: what storing does to earlier snapshots.
* `refuses_iff_ignores`: which logs are refused.
* `keepsAnswers_onLog`, `keepsAnswers_onLogs`: the answers for the past, after logs.
* `onLog_keeps_past`: what one log leaves of snapshots, book and nesting.
-/

namespace OfferBook

namespace History

variable {h : History} {latest s t : Book} {n : Nat}

/-! ## Storing behind the latest snapshot -/

/-- Storing no earlier than the latest snapshot corrects nothing. -/
theorem corrects_eq_false (hl : h.latest? = some latest) (hle : latest.block ≤ n) :
    h.corrects n = false := by
  simpa [corrects, hl] using hle

/-- A snapshot of an earlier block survives the next one, unless it is the oldest of a full history
that takes in a new block. -/
theorem mem_insert_or_oldest (hw : h.Wf) (hl : h.latest? = some latest)
    (ht : t ∈ h.snapshots) (hlt : t.block < s.block) :
    t ∈ (h.insert s).snapshots ∨
      h.snapshots.getLast? = some t ∧ h.size = h.capacity ∧ latest.block < s.block := by
  let rest := h.snapshots.dropWhile fun t => s.block ≤ t.block
  have hrest : t ∈ rest := (mem_dropWhile_iff hw.descending).mpr ⟨ht, hlt⟩
  have hsuffix : rest <:+ h.snapshots := List.dropWhile_suffix _
  have hfits := hw.fits
  have hsnapshots : (h.insert s).snapshots = (s :: rest).take h.capacity := rfl
  by_cases hroom : rest.length + 1 ≤ h.capacity
  · left
    rw [hsnapshots, List.take_of_length_le (by simpa using hroom)]
    exact List.mem_cons_of_mem s hrest
  · -- Without room for one more nothing was superseded, and the cut takes the last one only.
    have hlength := hsuffix.length_le
    have hall : rest = h.snapshots := hsuffix.eq_of_length (by omega)
    have hnew : latest.block < s.block := by
      have hmem : latest ∈ rest := hall ▸ List.mem_of_head? hl
      exact ((mem_dropWhile_iff hw.descending).mp hmem).2
    obtain ⟨last, hlast⟩ : ∃ last, rest.getLast? = some last :=
      ⟨_, List.getLast?_eq_some_getLast (List.ne_nil_of_mem hrest)⟩
    obtain ⟨front, hfront⟩ := List.getLast?_eq_some_iff.mp hlast
    have hcut : (h.insert s).snapshots = s :: front := by
      have hcapacity : h.capacity = front.length + 1 := by
        have := congrArg List.length hfront
        simp only [List.length_append, List.length_singleton] at this
        omega
      rw [hsnapshots, hfront, hcapacity, List.take_succ_cons, List.take_left]
    rw [hfront] at hrest
    rcases List.mem_append.mp hrest with hfrontMem | hlastMem
    · left
      rw [hcut]
      exact List.mem_cons_of_mem s hfrontMem
    · obtain rfl := List.mem_singleton.mp hlastMem
      refine .inr ⟨hall ▸ hlast, ?_, hnew⟩
      rw [size]
      omega

/-- Storing a snapshot leaves the answers for earlier blocks, or makes them unknown. -/
theorem atOrBefore?_insert_of_lt (h : History) (hlt : n < s.block) :
    (h.insert s).atOrBefore? n = h.atOrBefore? n ∨ (h.insert s).atOrBefore? n = none := by
  let rest := h.snapshots.dropWhile fun t => s.block ≤ t.block
  have hbefore : h.atOrBefore? n = rest.find? fun t => t.block ≤ n := by
    rw [atOrBefore?, ← List.takeWhile_append_dropWhile (p := fun t : Book => s.block ≤ t.block)
      (l := h.snapshots), List.find?_append]
    have hnone : (h.snapshots.takeWhile fun t => s.block ≤ t.block).find? (fun t => t.block ≤ n) =
        none := by
      refine List.find?_eq_none.mpr fun t ht => ?_
      have := List.mem_takeWhile_imp ht
      simp at this ⊢
      omega
    rw [hnone, Option.none_or]
  have hafter : (h.insert s).atOrBefore? n =
      (rest.take (h.capacity - 1)).find? fun t => t.block ≤ n := by
    have hcapacity : h.capacity = h.capacity - 1 + 1 := by
      have := h.one_le_capacity
      omega
    have hs : ¬ s.block ≤ n := by omega
    rw [atOrBefore?, insert]
    simp only
    rw [hcapacity, List.take_succ_cons, List.find?_cons_of_neg (by simpa using hs)]
    rfl
  rw [hafter, hbefore]
  cases hfound : (rest.take (h.capacity - 1)).find? fun t => t.block ≤ n with
  | none => exact .inr rfl
  | some t =>
      left
      rw [← List.take_append_drop (h.capacity - 1) rest, List.find?_append, hfound, Option.some_or]

end History

namespace Pool

variable {dex : String} {d : Deployment} {m : Market} {c : PoolConfig} {p q r : Pool} {log : Log}

/-! ## The logs that are ignored -/

/-- The pool leaves the log out of account: it has no block or was removed with it, the pool was
not seeded yet, or the log stands at or before the seeding, before the latest snapshot, or at or
before the last log. -/
inductive Ignores (p : Pool) (log : Log) : Prop where
  | unplaced (hblock : log.block = none)
  | abandoned (hremoved : log.removed = true)
  | unseeded (hseed : p.seededAt = none)
  | seeded {seed block : Nat} (hseed : p.seededAt = some seed) (hblock : log.block = some block)
      (hle : block ≤ seed)
  | overtaken {latest : Book} {block : Nat} (hlatest : p.latest? = some latest)
      (hblock : log.block = some block) (hlt : block < latest.block)
  | repeated {last here : Nat × Nat} (hlast : p.lastLog = some last)
      (hhere : log.position? = some here)
      (hle : here.1 < last.1 ∨ here.1 = last.1 ∧ here.2 ≤ last.2)

/-- The logs that a pool refuses are those on the list. -/
theorem refuses_iff_ignores (h : p.Bookkeeping) : p.Refuses log ↔ p.Ignores log := by
  constructor
  · intro hrefuses
    by_contra hnot
    obtain ⟨block, hblock⟩ := Option.ne_none_iff_exists'.mp fun hb => hnot (.unplaced hb)
    obtain ⟨seed, hseed⟩ := Option.ne_none_iff_exists'.mp fun hs => hnot (.unseeded hs)
    obtain ⟨latest, hlatest⟩ : ∃ latest, p.latest? = some latest := by
      obtain ⟨hne, -⟩ := h.seeded seed hseed
      exact ⟨_, List.head?_eq_some_head hne⟩
    refine hrefuses latest block ⟨hblock, ?_, hlatest, reflects_eq_false_iff.mpr ⟨?_, ?_, ?_⟩⟩
    · by_contra hremoved
      exact hnot (.abandoned (by simpa using hremoved))
    · by_contra hlt
      exact hnot (.overtaken hlatest hblock (by omega))
    · intro seed hseed
      by_contra hle
      exact hnot (.seeded hseed hblock (by omega))
    · intro here last hhere hlast
      by_contra hle
      exact hnot (.repeated hlast hhere (positionLe_iff.mp (by simpa using hle)))
  · rintro hignores latest block ⟨hplaced, hstanding, hlatest, hfresh⟩
    obtain ⟨hle, hbehind, hlast⟩ := reflects_eq_false_iff.mp hfresh
    cases hignores with
    | unplaced hblock => cases hblock.symm.trans hplaced
    | abandoned hremoved => cases hremoved.symm.trans hstanding
    | unseeded hseed =>
        obtain ⟨hempty, -⟩ := h.unseeded hseed
        rw [latest?, History.latest?, hempty] at hlatest
        cases hlatest
    | seeded hseed hblock hbefore =>
        obtain rfl := Option.some.inj (hblock.symm.trans hplaced)
        have := hbehind _ hseed
        omega
    | overtaken hlatest' hblock hbefore =>
        obtain rfl := Option.some.inj (hblock.symm.trans hplaced)
        obtain rfl := Option.some.inj (hlatest'.symm.trans hlatest)
        omega
    | repeated hlast' hhere hbefore =>
        have hfalse := hlast _ _ hhere hlast'
        rw [positionLe_iff.mpr hbefore] at hfalse
        cases hfalse

/-! ## Answers for the past -/

/-- From one pool to the other the latest block did not go back, and of the blocks before the
latest one every block is answered as it was or not any more. -/
structure KeepsAnswers (p q : Pool) : Prop where
  advances : ∀ latest, p.latest? = some latest →
    ∃ next, q.latest? = some next ∧ latest.block ≤ next.block
  answers : ∀ latest n, p.latest? = some latest → n < latest.block →
    q.stateAt? n = p.stateAt? n ∨ q.stateAt? n = none

theorem KeepsAnswers.refl (p : Pool) : KeepsAnswers p p where
  advances latest hl := ⟨latest, hl, Nat.le_refl _⟩
  answers _ _ _ _ := .inl rfl

theorem KeepsAnswers.trans (hpq : KeepsAnswers p q) (hqr : KeepsAnswers q r) :
    KeepsAnswers p r where
  advances latest hl := by
    obtain ⟨next, hnext, hle⟩ := hpq.advances latest hl
    obtain ⟨last, hlast, hle'⟩ := hqr.advances next hnext
    exact ⟨last, hlast, Nat.le_trans hle hle'⟩
  answers latest n hl hn := by
    obtain ⟨next, hnext, hle⟩ := hpq.advances latest hl
    rcases hqr.answers next n hnext (by omega) with hsame | hnone
    · rw [hsame]
      exact hpq.answers latest n hl hn
    · exact .inr hnone

/-- No log changes an answer for the past. -/
theorem keepsAnswers_onLog (hw : p.history.Wf) (log : Log) :
    KeepsAnswers p (p.onLog log).value.pool := by
  rcases p.refuses_or_accepts log with hrefuses | ⟨latest, block, haccepts⟩
  · rw [onLog_of_refuses hrefuses]
    exact .refl p
  · obtain ⟨hle, -⟩ := reflects_eq_false_iff.mp haccepts.fresh
    have hhistory : (p.onLog log).value.pool.history =
        p.history.insert ((p.outcome log latest).book.atBlock block) := by
      rw [onLog_of_accepts hw haccepts, history_noteLast]
    refine ⟨fun latest' hlatest' => ?_, fun latest' n hlatest' hn => ?_⟩ <;>
      obtain rfl := Option.some.inj (haccepts.latest_eq.symm.trans hlatest')
    · exact ⟨_, by rw [latest?, hhistory, History.latest?_insert], hle⟩
    · rw [stateAt?, hhistory]
      exact History.atOrBefore?_insert_of_lt _ (Nat.lt_of_lt_of_le hn hle)

/-- No sequence of logs changes an answer for the past. -/
theorem keepsAnswers_onLogs (hw : p.history.Wf) (logs : List Log) :
    KeepsAnswers p (p.onLogs logs).value.1 := by
  induction logs generalizing p with
  | nil => exact .refl p
  | cons log rest ih =>
      rw [onLogs_cons]
      exact (keepsAnswers_onLog hw log).trans (ih (wf_onLog hw log))

/-! ## What one log leaves -/

/-- No log makes the history correct itself. -/
theorem correctedHistory_notMem_onLog (p : Pool) (log : Log) :
    Notice.correctedHistory ∉ (p.onLog log).notices := by
  rcases p.refuses_or_accepts log with hrefuses | ⟨latest, block, haccepts⟩
  · obtain ⟨remark, hremark, hlog⟩ := onLog_eq_of_refuses hrefuses
    rw [hlog, List.mem_singleton]
    rintro rfl
    simp at hremark
  · obtain ⟨hle, -⟩ := reflects_eq_false_iff.mp haccepts.fresh
    have hstore (b : Book) : (p.history.store (b.atBlock block)).notices = [] := by
      have hcorrects : p.history.corrects (b.atBlock block).block = false :=
        History.corrects_eq_false haccepts.latest_eq hle
      rw [History.store, hcorrects]
      rfl
    have hroute : Notice.correctedHistory ∉ (Route.ofLog p.market.hash log).notices := by
      cases Route.ofLog p.market.hash log with
      | unhandled why => cases why <;> simp [Route.notices]
      | malformed why => cases why <;> simp [Route.notices]
      | _ => simp [Route.notices]
    rw [onLog_eq_advance haccepts, advance]
    simp only [Traced.notices_bind, List.mem_append, not_or]
    refine ⟨hroute, ?_⟩
    split
    · simp only [Traced.notices_bind, Traced.notices_pure, hstore, List.append_nil]
      intro hmem
      simpa using BookState.mem_notices_apply hmem
    · split
      · simp only [Traced.notices_bind, Traced.notices_pure, hstore, List.append_nil]
        exact List.not_mem_nil
      · exact List.not_mem_nil

/-- **No log rewrites the past.** Whatever happened to a pool and whatever a log says

* the latest block does not go back. Every snapshot of a block before the one that is the latest
  afterwards is kept as it is, unless it is the oldest of a full history that takes in a new
  block, and no snapshot of such a block is added;
* the history is never corrected;
* if no event is applied, the open orders and the book are as before, whatever the block of the
  latest snapshot;
* a log that has no block or was removed, that comes before the seeding, or that stands at or
  before the block of the seeding, before the latest one, or at or before the last log, changes
  nothing at all. -/
theorem onLog_keeps_past (h : Reachable dex d m c p) (log : Log) :
    let fed := (p.onLog log).value
    (∀ latest, p.latest? = some latest →
      ∃ next, fed.pool.latest? = some next ∧ latest.block ≤ next.block ∧
        (∀ s ∈ p.history.snapshots, s.block < next.block →
          s ∈ fed.pool.history.snapshots ∨
            p.history.snapshots.getLast? = some s ∧ p.history.size = p.history.capacity ∧
              latest.block < next.block) ∧
        ∀ s ∈ fed.pool.history.snapshots, s.block < next.block → s ∈ p.history.snapshots) ∧
      Notice.correctedHistory ∉ (p.onLog log).notices ∧
      (fed.applied = none → fed.pool.nesting = p.nesting ∧
        (fed.pool.latest?.map fun b => (b.nextOffer, b.entries)) =
          p.latest?.map fun b => (b.nextOffer, b.entries)) ∧
      (p.Ignores log → fed = ⟨p, none⟩) := by
  intro fed
  refine ⟨fun latest hlatest => ?_, correctedHistory_notMem_onLog p log, fun hnone => ?_,
    fun hignores => onLog_of_refuses ((refuses_iff_ignores h.bookkeeping).mpr hignores)⟩
  · rcases p.refuses_or_accepts log with hrefuses | ⟨latest', block, haccepts⟩
    · have hfed : fed = ⟨p, none⟩ := onLog_of_refuses hrefuses
      rw [hfed]
      exact ⟨latest, hlatest, Nat.le_refl _, fun s hs _ => .inl hs, fun s hs _ => hs⟩
    · obtain rfl := Option.some.inj (haccepts.latest_eq.symm.trans hlatest)
      obtain ⟨hle, -⟩ := reflects_eq_false_iff.mp haccepts.fresh
      have hhistory : fed.pool.history =
          p.history.insert ((p.outcome log latest').book.atBlock block) := by
        simp only [fed]
        rw [onLog_of_accepts h.wf haccepts, history_noteLast]
      refine ⟨(p.outcome log latest').book.atBlock block, ?_, hle, fun s hs hlt => ?_,
        fun s hs hlt => ?_⟩
      · rw [latest?, hhistory, History.latest?_insert]
      · rw [hhistory]
        exact History.mem_insert_or_oldest h.wf haccepts.latest_eq hs hlt
      · rw [hhistory] at hs
        rcases History.mem_snapshots_insert hs with rfl | hs
        · exact absurd hlt (Nat.lt_irrefl _)
        · exact hs
  · rcases p.refuses_or_accepts log with hrefuses | ⟨latest, block, haccepts⟩
    · have hfed : fed = ⟨p, none⟩ := onLog_of_refuses hrefuses
      rw [hfed]
      exact ⟨rfl, rfl⟩
    · have hevent : log.event? p.market.hash = none := by
        simp only [fed] at hnone
        rw [onLog_of_accepts h.wf haccepts] at hnone
        exact Option.map_eq_none_iff.mp hnone
      exact (onLog_of_no_event h.wf hevent).2

/-- A pool that retains two snapshots has those of blocks 10 and 11 when a log without topics comes
in block 12. The log that was last taken into account comes again. -/
theorem onLog_keeps_past_full_history :
    let market : Market := ⟨0xaa, 0xbb, 1⟩
    let served : InMemoryReader :=
      ⟨10, [⟨market, 0, [.usual 9 ⟨-1, by decide, by decide⟩ 5]⟩], false, false⟩
    let quiet (block index : Nat) : Log := ⟨0, [], [], some block, none, none, some index, false⟩
    let seeded :=
      ((new "mangrove" .arbitrum market (PoolConfig.default.withRetained 2)).seed
        served.reader 10).value.1
    let p := (seeded.onLog (quiet 11 3)).value.pool
    let after := (p.onLog (quiet 12 0)).value.pool
    p.history.snapshots.map Book.block = [11, 10] ∧
      (∃ next, after.latest? = some next ∧ 11 ≤ next.block ∧
        ∀ s ∈ p.history.snapshots, s.block < next.block →
          s ∈ after.history.snapshots ∨ s.block = 10) ∧
      after.nesting = p.nesting ∧
      (p.onLog (quiet 11 3)).value = ⟨p, none⟩ := by
  intro market served quiet seeded p after
  have hreachable : Reachable "mangrove" .arbitrum market (PoolConfig.default.withRetained 2) p :=
    (Reachable.new.seed _ 10).feed _
  have hblocks : p.history.snapshots.map Book.block = [11, 10] := by decide +kernel
  have hlast : p.lastLog = some (11, 3) := by decide +kernel
  have hquiet : (p.onLog (quiet 12 0)).value.applied = none := by decide +kernel
  obtain ⟨latest, hlatest, hblock⟩ : ∃ latest, p.latest? = some latest ∧ latest.block = 11 := by
    rw [List.map_eq_cons_iff] at hblocks
    obtain ⟨latest, rest, hsnapshots, hblock, -⟩ := hblocks
    exact ⟨latest, by rw [latest?, History.latest?, hsnapshots]; rfl, hblock⟩
  obtain ⟨hpast, -, hnone, -⟩ := onLog_keeps_past hreachable (quiet 12 0)
  obtain ⟨-, -, -, hignored⟩ := onLog_keeps_past hreachable (quiet 11 3)
  refine ⟨hblocks, ?_, (hnone hquiet).1,
    hignored (.repeated hlast rfl (.inr ⟨rfl, Nat.le_refl 3⟩))⟩
  obtain ⟨next, hnext, hle, hkept, -⟩ := hpast latest hlatest
  refine ⟨next, hnext, hblock ▸ hle, fun s hs hlt => (hkept s hs hlt).imp id ?_⟩
  rintro ⟨holdest, -⟩
  have holdestBlock := congrArg (Option.map Book.block) holdest
  rw [← List.getLast?_map, hblocks] at holdestBlock
  exact (Option.some.inj holdestBlock).symm

end Pool

end OfferBook
