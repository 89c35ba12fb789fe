import Mathlib.Data.List.Forall2
import OfferBook.Emitter
import OfferBook.Proofs.Bookkeeping
import OfferBook.Proofs.Terms

/-!
# Dropping a pool and seeding it again

A pool may be dropped while no order is open and seeded again from what the chain lists then. The
new pool has forgotten everything from before: the older snapshots, the last log, the neighbours
of offers. None of that shows in what it makes of logs from later blocks, and this module says
why. Of the older snapshots only the latest is worked on, on its terms alone; and both pools refuse
a log of a later block for the same reasons, since the old seeding and the old last log lie behind
it anyway.

`InStep c p q` is the relation that feeding keeps. Behind block `c` the two pools have the same
snapshots, on the same terms; at or before it they have the same latest one, or both have none
any more. A history forgets by counting its snapshots, so the two forget their last snapshot from
before `c` at the same log (`inStep_insert`).

## Main results

* `inStep_onLog`: feeding a log of a later block keeps two pools in step.
* `inStep_atOrBefore?`: pools in step answer alike for every block from `c` on.
* `onLogs_reseeded`: a pool that is seeded again goes on as the old one does.
-/

namespace OfferBook

variable {c n : Nat}

/-- Snapshots of one block, on the same terms. -/
structure SameSnapshot (b b' : Book) : Prop where
  terms : SameTerms b b'
  block : b.block = b'.block

/-- The same answer from block `c` on: the offers are on the same terms, and only the block of a
snapshot taken at or before `c` may differ. -/
structure SameAnswer (c : Nat) (b b' : Book) : Prop where
  terms : SameTerms b b'
  block : b.block = b'.block ∨ b.block ≤ c ∧ b'.block ≤ c

theorem SameSnapshot.answer {b b' : Book} (h : SameSnapshot b b') : SameAnswer c b b' :=
  ⟨h.terms, .inl h.block⟩

namespace History

/-! ## Histories in step -/

/-- The snapshots behind block `c` and those up to it, of two histories. -/
structure Paired (c : Nat) (since since' older older' : List Book) : Prop where
  same : List.Forall₂ SameSnapshot since since'
  before : ∀ b ∈ older, b.block ≤ c
  before' : ∀ b ∈ older', b.block ≤ c
  latest : Option.Rel SameTerms older.head? older'.head?

/-- Behind block `c` the same snapshots, and at or before it the same latest one. -/
def InStep (c : Nat) (h h' : History) : Prop :=
  ∃ since since' older older', h.snapshots = since ++ older ∧ h'.snapshots = since' ++ older' ∧
    Paired c since since' older older'

variable {g g' : History} {s s' : Book}

/-- A later block supersedes none of the older snapshots. -/
private theorem dropWhile_append_older {since older : List Book} (hn : c < n)
    (holder : ∀ b ∈ older, b.block ≤ c) :
    ((since ++ older).dropWhile fun t => n ≤ t.block) =
      (since.dropWhile fun t => n ≤ t.block) ++ older := by
  induction since with
  | nil =>
      cases older with
      | nil => rfl
      | cons b rest =>
          have hb := holder b List.mem_cons_self
          have hlt : ¬ n ≤ b.block := by omega
          exact List.dropWhile_cons_of_neg (by simpa using hlt)
  | cons b since ih =>
      by_cases hb : n ≤ b.block
      · rw [List.cons_append, List.dropWhile_cons_of_pos (by simpa using hb),
          List.dropWhile_cons_of_pos (by simpa using hb), ih]
      · rw [List.cons_append, List.dropWhile_cons_of_neg (by simpa using hb),
          List.dropWhile_cons_of_neg (by simpa using hb), List.cons_append]

/-- What a block supersedes is a matter of the blocks alone. -/
private theorem same_dropWhile {since since' : List Book}
    (h : List.Forall₂ SameSnapshot since since') :
    List.Forall₂ SameSnapshot (since.dropWhile fun t => n ≤ t.block)
      (since'.dropWhile fun t => n ≤ t.block) := by
  induction h with
  | nil => exact .nil
  | @cons b b' since since' hb hrest ih =>
      by_cases hn : n ≤ b.block
      · rw [List.dropWhile_cons_of_pos (by simpa using hn),
          List.dropWhile_cons_of_pos (by simpa [← hb.block] using hn)]
        exact ih
      · rw [List.dropWhile_cons_of_neg (by simpa using hn),
          List.dropWhile_cons_of_neg (by simpa [← hb.block] using hn)]
        exact .cons hb hrest

private theorem snapshots_insert_append {since older : List Book}
    (hs : g.snapshots = since ++ older) (hbehind : c < s.block)
    (holder : ∀ b ∈ older, b.block ≤ c) :
    let kept := s :: since.dropWhile fun t => s.block ≤ t.block
    (g.insert s).snapshots =
      kept.take g.capacity ++ older.take (g.capacity - kept.length) := by
  intro kept
  rw [insert, hs, dropWhile_append_older hbehind holder, ← List.cons_append, List.take_append]

/-- Storing the same snapshot of a later block keeps two histories in step. The capacity cuts as
many of the later snapshots off in both, and it leaves older ones in both or in none. -/
theorem inStep_insert (h : InStep c g g') (hcapacity : g.capacity = g'.capacity)
    (hs : SameSnapshot s s') (hbehind : c < s.block) : InStep c (g.insert s) (g'.insert s') := by
  obtain ⟨since, since', older, older', hsince, hsince', hpaired⟩ := h
  have hkept : List.Forall₂ SameSnapshot (s :: since.dropWhile fun t => s.block ≤ t.block)
      (s' :: since'.dropWhile fun t => s'.block ≤ t.block) :=
    .cons hs (hs.block ▸ same_dropWhile hpaired.same)
  refine ⟨_, _, _, _, snapshots_insert_append hsince hbehind hpaired.before,
    snapshots_insert_append hsince' (hs.block ▸ hbehind) hpaired.before', ?_⟩
  refine
    { same := ?_
      before := fun b hb => hpaired.before b (List.mem_of_mem_take hb)
      before' := fun b hb => hpaired.before' b (List.mem_of_mem_take hb)
      latest := ?_ }
  · rw [hcapacity]
    exact List.forall₂_take _ hkept
  · rw [hcapacity, hkept.length_eq, List.head?_take, List.head?_take]
    split
    · exact .none
    · exact hpaired.latest

private theorem Paired.answer {since since' older older' : List Book}
    (h : Paired c since since' older older') :
    Option.Rel (SameAnswer c) older.head? older'.head? := by
  obtain ⟨-, hbefore, hbefore', hlatest⟩ := h
  cases older with
  | nil =>
      cases older' with
      | nil => exact .none
      | cons b' older' => cases hlatest
  | cons b older =>
      cases older' with
      | nil => cases hlatest
      | cons b' older' =>
          cases hlatest with
          | some hterms =>
              exact .some ⟨hterms, .inr ⟨hbefore b List.mem_cons_self,
                hbefore' b' List.mem_cons_self⟩⟩

/-- From block `c` on, the latest of the older snapshots is the one to be found among them. -/
private theorem find?_older {older : List Book} (h : ∀ b ∈ older, b.block ≤ c) (hn : c ≤ n) :
    (older.find? fun t => t.block ≤ n) = older.head? := by
  cases older with
  | nil => rfl
  | cons b older =>
      have hb := h b List.mem_cons_self
      have hle : b.block ≤ n := by omega
      exact List.find?_cons_of_pos (by simpa using hle)

/-- Histories in step answer alike for every block from `c` on. -/
theorem inStep_atOrBefore? (h : InStep c g g') (hn : c ≤ n) :
    Option.Rel (SameAnswer c) (g.atOrBefore? n) (g'.atOrBefore? n) := by
  obtain ⟨since, since', older, older', hsince, hsince', hpaired⟩ := h
  have holder := hpaired.answer
  rw [← find?_older hpaired.before hn, ← find?_older hpaired.before' hn] at holder
  rw [atOrBefore?, atOrBefore?, hsince, hsince']
  have hsame := hpaired.same
  clear hpaired hsince hsince'
  induction hsame with
  | nil => exact holder
  | @cons b b' since since' hb _ ih =>
      by_cases hle : b.block ≤ n
      · rw [List.cons_append, List.cons_append, List.find?_cons_of_pos (by simpa using hle),
          List.find?_cons_of_pos (by simpa [← hb.block] using hle)]
        exact .some hb.answer
      · rw [List.cons_append, List.cons_append, List.find?_cons_of_neg (by simpa using hle),
          List.find?_cons_of_neg (by simpa [← hb.block] using hle)]
        exact ih

/-- Histories in step have the same latest snapshot. -/
theorem inStep_latest? (h : InStep c g g') : Option.Rel (SameAnswer c) g.latest? g'.latest? := by
  obtain ⟨since, since', older, older', hsince, hsince', hpaired⟩ := h
  have holder := hpaired.answer
  rw [latest?, latest?, hsince, hsince']
  cases hpaired.same with
  | nil => exact holder
  | cons hb _ => exact .some hb.answer

end History

namespace Pool

variable {p q : Pool} {log : Log}

/-! ## Pools in step -/

/-- What two pools have in common from block `c` on. -/
structure InStep (c : Nat) (p q : Pool) : Prop where
  wf : p.history.Wf
  wf' : q.history.Wf
  market : p.market = q.market
  capacity : p.history.capacity = q.history.capacity
  history : History.InStep c p.history q.history
  nesting : p.nesting = q.nesting
  seeded : ∀ seed, p.seededAt = some seed → seed ≤ c
  seeded' : ∀ seed, q.seededAt = some seed → seed ≤ c
  /-- The last log is the same, or what either knows of it lies at or before block `c`. -/
  lastLog : p.lastLog = q.lastLog ∨
    ∀ last, p.lastLog = some last ∨ q.lastLog = some last → last.1 ≤ c

variable {latest latest' : Book} {block : Nat}

/-- Pools in step have the same reasons to take a log of a later block into account: what they
disagree about lies at or before block `c`. -/
private theorem reflects_iff_of_inStep (h : InStep c p q) (hbehind : c < block)
    (hblock : log.block = some block) (hanswer : SameAnswer c latest latest') :
    p.reflects latest block log.position? = false ↔
      q.reflects latest' block log.position? = false := by
  rw [reflects_eq_false_iff, reflects_eq_false_iff]
  refine and_congr ?_ (and_congr ?_ ?_)
  · rcases hanswer.block with heq | ⟨hle, hle'⟩
    · rw [heq]
    · omega
  · refine iff_of_true (fun seed hseed => ?_) (fun seed hseed => ?_)
    · have hle := h.seeded seed hseed
      omega
    · have hle := h.seeded' seed hseed
      omega
  · rcases h.lastLog with heq | hold
    · rw [heq]
    · have hfresh : ∀ here last, log.position? = some here → last.1 ≤ c →
          positionLe here last = false := by
        intro here last hhere hlast
        have hat := hblock.symm.trans (Log.block_of_position? hhere)
        obtain rfl : block = here.1 := Option.some.inj hat
        refine Bool.eq_false_iff.mpr fun hle => ?_
        rw [positionLe_iff] at hle
        omega
      exact iff_of_true
        (fun here last hhere hlast => hfresh here last hhere (hold last (.inl hlast)))
        fun here last hhere hlast => hfresh here last hhere (hold last (.inr hlast))

/-- Pools in step both refuse a log of a later block, or both accept it. -/
theorem refuses_or_accepts_of_inStep (h : InStep c p q)
    (hbehind : ∀ block, log.block = some block → c < block) :
    p.Refuses log ∧ q.Refuses log ∨ ∃ latest latest' block, p.Accepts log latest block ∧
      q.Accepts log latest' block ∧ SameTerms latest latest' := by
  have hlatest : Option.Rel (SameAnswer c) p.latest? q.latest? := History.inStep_latest? h.history
  generalize hp : p.latest? = known at hlatest
  generalize hq : q.latest? = known' at hlatest
  cases hlatest with
  | none =>
      refine .inl ⟨fun latest block hacc => ?_, fun latest block hacc => ?_⟩
      · cases hp.symm.trans hacc.latest_eq
      · cases hq.symm.trans hacc.latest_eq
  | @some latest latest' hanswer =>
      by_cases hacc : ∃ block, p.Accepts log latest block
      · obtain ⟨block, hacc⟩ := hacc
        have hiff := reflects_iff_of_inStep h (hbehind block hacc.placed) hacc.placed hanswer
        exact .inr ⟨latest, latest', block, hacc,
          ⟨hacc.placed, hacc.standing, hq, hiff.mp hacc.fresh⟩, hanswer.terms⟩
      · refine .inl ⟨fun b block hb => ?_, fun b block hb => ?_⟩
        · obtain rfl : latest = b := Option.some.inj (hp.symm.trans hb.latest_eq)
          exact hacc ⟨block, hb⟩
        · obtain rfl : latest' = b := Option.some.inj (hq.symm.trans hb.latest_eq)
          have hiff := reflects_iff_of_inStep h (hbehind block hb.placed) hb.placed hanswer
          exact hacc ⟨block, hb.placed, hb.standing, hp, hiff.mpr hb.fresh⟩

/-- Pools in step apply the same event to books on the same terms. -/
private theorem outcome_of_inStep (h : InStep c p q) (hterms : SameTerms latest latest')
    (log : Log) :
    SameTerms (p.outcome log latest).book (q.outcome log latest').book ∧
      (p.outcome log latest).nesting = (q.outcome log latest').nesting := by
  unfold outcome
  rw [← h.market, ← h.nesting]
  cases log.event? p.market.hash with
  | none => exact ⟨hterms, rfl⟩
  | some e =>
      refine ⟨sameTerms_apply hterms p.nesting e, ?_⟩
      rw [BookState.follow, BookState.follow, BookState.nesting_apply, BookState.nesting_apply]

/-- **One log keeps two pools in step.** A log of a later block has the same event applied by both,
if any, and leaves both in step. -/
theorem inStep_onLog (h : InStep c p q) (hbehind : ∀ block, log.block = some block → c < block) :
    (p.onLog log).value.applied = (q.onLog log).value.applied ∧
      InStep c (p.onLog log).value.pool (q.onLog log).value.pool := by
  rcases refuses_or_accepts_of_inStep h hbehind with
    ⟨hp, hq⟩ | ⟨latest, latest', block, hp, hq, hterms⟩
  · rw [onLog_of_refuses hp, onLog_of_refuses hq]
    exact ⟨rfl, h⟩
  · obtain ⟨hbooks, hnestings⟩ := outcome_of_inStep h hterms log
    have hframe := onLog_frame p log
    have hframe' := onLog_frame q log
    have hfed := onLog_of_accepts h.wf hp
    have hfed' := onLog_of_accepts h.wf' hq
    refine ⟨by rw [hfed, hfed', h.market], ?_⟩
    refine
      { wf := wf_onLog h.wf log
        wf' := wf_onLog h.wf' log
        market := by rw [hframe.market, hframe'.market, h.market]
        capacity := by rw [hframe.capacity, hframe'.capacity, h.capacity]
        history := ?_
        nesting := ?_
        seeded := fun seed hseed => h.seeded seed (hframe.seededAt ▸ hseed)
        seeded' := fun seed hseed => h.seeded' seed (hframe'.seededAt ▸ hseed)
        lastLog := ?_ }
    · have hsame : SameSnapshot ((p.outcome log latest).book.atBlock block)
          ((q.outcome log latest').book.atBlock block) :=
        ⟨hbooks.atBlock block, show block = block from rfl⟩
      rw [hfed, hfed', history_noteLast, history_noteLast]
      exact History.inStep_insert h.history h.capacity hsame (hbehind block hp.placed)
    · rw [hfed, hfed', nesting_noteLast, nesting_noteLast]
      exact hnestings
    · rw [hfed, hfed', lastLog_noteLast, lastLog_noteLast]
      cases log.position? with
      | some here => exact .inl rfl
      | none => exact h.lastLog

/-- Feeding logs of later blocks keeps two pools in step, and the same events are applied. -/
theorem inStep_onLogs (h : InStep c p q) {logs : List Log}
    (hbehind : ∀ log ∈ logs, ∀ block, log.block = some block → c < block) :
    (p.onLogs logs).value.2 = (q.onLogs logs).value.2 ∧
      InStep c (p.onLogs logs).value.1 (q.onLogs logs).value.1 := by
  induction logs generalizing p q with
  | nil => exact ⟨rfl, h⟩
  | cons log rest ih =>
      obtain ⟨happlied, hnext⟩ := inStep_onLog h (hbehind log List.mem_cons_self)
      obtain ⟨hrest, hlast⟩ := ih hnext fun l hl => hbehind l (List.mem_cons_of_mem _ hl)
      rw [onLogs_cons, onLogs_cons, happlied, hrest]
      exact ⟨rfl, hlast⟩

/-- Pools in step note the same position of an accepted log that has an index, and where they
note the same they go on doing so. -/
private theorem lastLog_onLog_of_inStep (h : InStep c p q)
    (hbehind : ∀ block, log.block = some block → c < block)
    (hsame : p.lastLog = q.lastLog ∨ log.index.isSome ∧ ¬ p.Refuses log) :
    (p.onLog log).value.pool.lastLog = (q.onLog log).value.pool.lastLog := by
  rcases refuses_or_accepts_of_inStep h hbehind with
    ⟨hp, hq⟩ | ⟨latest, latest', block, hp, hq, -⟩
  · rw [onLog_of_refuses hp, onLog_of_refuses hq]
    rcases hsame with heq | ⟨-, haccepted⟩
    · exact heq
    · exact absurd hp haccepted
  · rw [onLog_of_accepts h.wf hp, onLog_of_accepts h.wf' hq, lastLog_noteLast, lastLog_noteLast]
    rcases hsame with heq | ⟨hindex, -⟩
    · rw [heq]
    · obtain ⟨index, hindex⟩ := Option.isSome_iff_exists.mp hindex
      simp [Log.position?, hp.placed, hindex]

private theorem lastLog_onLogs_of_inStep (h : InStep c p q) {logs : List Log}
    (hbehind : ∀ log ∈ logs, ∀ block, log.block = some block → c < block)
    (hsame : p.lastLog = q.lastLog) :
    (p.onLogs logs).value.1.lastLog = (q.onLogs logs).value.1.lastLog := by
  induction logs generalizing p q with
  | nil => exact hsame
  | cons log rest ih =>
      have hlog := hbehind log List.mem_cons_self
      rw [onLogs_cons, onLogs_cons]
      exact ih (inStep_onLog h hlog).2 (fun l hl => hbehind l (List.mem_cons_of_mem _ hl))
        (lastLog_onLog_of_inStep h hlog (.inl hsame))

/-- Once a log with an index was accepted, pools in step have the same last log. -/
theorem lastLog_onLogs_of_accepted (h : InStep c p q) {front back : List Log}
    (hbehind : ∀ l ∈ front ++ log :: back, ∀ block, l.block = some block → c < block)
    (hindex : log.index.isSome) (haccepted : ¬ (p.onLogs front).value.1.Refuses log) :
    (p.onLogs (front ++ log :: back)).value.1.lastLog =
      (q.onLogs (front ++ log :: back)).value.1.lastLog := by
  obtain ⟨-, hfront⟩ := inStep_onLogs h fun l hl => hbehind l (List.mem_append_left _ hl)
  have hlog := hbehind log (List.mem_append_right _ List.mem_cons_self)
  rw [onLogs_append, onLogs_append, onLogs_cons, onLogs_cons]
  exact lastLog_onLogs_of_inStep (inStep_onLog hfront hlog).2
    (fun l hl => hbehind l (List.mem_append_right _ (List.mem_cons_of_mem _ hl)))
    (lastLog_onLog_of_inStep hfront hlog (.inr ⟨hindex, haccepted⟩))

/-! ## Seeding again -/

/-- A pool with no order open is in step with one that is seeded from its latest book. -/
theorem inStep_restart (hp : p.Bookkeeping) (hlatest : p.latest? = some latest)
    (hidle : p.nesting = .idle) (hle : latest.block ≤ c) (hmarket : p.market = q.market)
    (hcapacity : p.history.capacity = q.history.capacity) {b : Book} (hb : b.block = c)
    (hterms : SameTerms latest b) : InStep c p (q.restart c b) where
  wf := hp.wf
  wf' := History.wf_insert (History.wf_clear _) b
  market := hmarket
  capacity := hcapacity
  history := by
    have hbefore : ∀ t ∈ p.history.snapshots, t.block ≤ c := fun t ht =>
      Nat.le_trans (History.block_le_latest hp.wf hlatest t ht) hle
    refine ⟨[], [], p.history.snapshots, [b], rfl, History.snapshots_insert_clear q.history b,
      .nil, hbefore, ?_, ?_⟩
    · intro t ht
      rw [List.mem_singleton.mp ht]
      exact Nat.le_of_eq hb
    · have hhead : p.history.snapshots.head? = some latest := hlatest
      rw [hhead]
      exact .some hterms
  nesting := hidle
  seeded := by
    intro seed hseed
    obtain ⟨seed', hseed', hbehind⟩ := hp.seededAt_of_latest? hlatest
    obtain rfl : seed' = seed := Option.some.inj (hseed'.symm.trans hseed)
    omega
  seeded' := by
    intro seed hseed
    exact Nat.le_of_eq (Option.some.inj hseed).symm
  lastLog := by
    refine .inr fun last hlast => ?_
    rcases hlast with hlast | hlast
    · obtain ⟨seed, latest', -, hl, -, hbehind⟩ := hp.lastLog last hlast
      obtain rfl : latest' = latest := Option.some.inj (hl.symm.trans hlatest)
      omega
    · cases hlast

/-- **A pool that is seeded again goes on as the old one does.** Some run of a new pool leaves no
order open and a latest book of block `c` or before. Another pool of the same market and tuning is
seeded at block `c` from an offer list that lists this book. Then whatever logs of later blocks are
fed to both, at every point in their sequence the same events were applied, the same orders are
open, the last log is the same once one with an index was accepted, and for every block from `c`
on both answer or neither does, with the same offers in the same order and on the same terms. Only
a snapshot taken at or before `c` may name another block. -/
theorem onLogs_reseeded (dex dex' : String) (d d' : Deployment) (m : Market) (config : PoolConfig)
    (actions before : List Action) {latest b : Book} {r : Reader} {l : Contract.OfferList}
    (hlatest : ((new dex d m config).run actions).latest? = some latest)
    (hidle : ((new dex d m config).run actions).nesting = .idle) (hle : latest.block ≤ c)
    (hfetched : ((new dex' d' m config).run before).fetcher.Accepts r c l b)
    (hlists : Book.Lists l latest.entries) {logs fed : List Log}
    (hbehind : ∀ log ∈ logs, ∀ block, log.block = some block → c < block)
    (hfed : fed <+: logs) :
    let old := (new dex d m config).run actions
    let p := (old.onLogs fed).value
    let q := ((((new dex' d' m config).run before).seed r c).value.1.onLogs fed).value
    p.2 = q.2 ∧ p.1.nesting = q.1.nesting ∧
      (∀ front log back, fed = front ++ log :: back → log.index.isSome →
        ¬ (old.onLogs front).value.1.Refuses log → p.1.lastLog = q.1.lastLog) ∧
      ∀ block, c ≤ block → Option.Rel (SameAnswer c) (p.1.stateAt? block) (q.1.stateAt? block) := by
  intro old p q
  have hold := fetcher_run (new dex d m config) actions
  have hnew := fetcher_run (new dex' d' m config) before
  have hordered : latest.Ordered :=
    ordered_run dex d m config actions latest (List.mem_of_head? hlatest)
  have hterms : SameTerms latest b := by
    obtain ⟨result, rest, -, -, -, hb⟩ := hfetched
    exact sameTerms_of_lists hb hordered hlists
  have hok : (((new dex' d' m config).run before).fetcher.tryFetch r c).value = .ok b :=
    Fetcher.tryFetch_eq_ok_iff.mpr ⟨l, hfetched⟩
  have hstart : InStep c old (((new dex' d' m config).run before).seed r c).value.1 := by
    rw [seed_of_ok hok]
    refine inStep_restart (bookkeeping_run (bookkeeping_new dex d m config) actions) hlatest hidle
      hle ?_ ?_ (Fetcher.block_tryFetch hok) hterms
    · rw [market, market, hold.1, hnew.1]
      rfl
    · rw [hold.2, hnew.2]
      rfl
  have hbehindFed : ∀ log ∈ fed, ∀ block, log.block = some block → c < block := fun log hlog =>
    hbehind log (hfed.subset hlog)
  obtain ⟨happlied, hstep⟩ := inStep_onLogs hstart hbehindFed
  refine ⟨happlied, hstep.nesting, ?_, fun block hblock => ?_⟩
  · rintro front log back rfl hindex haccepted
    exact lastLog_onLogs_of_accepted hstart hbehindFed hindex haccepted
  · exact History.inStep_atOrBefore? hstep.history hblock

/-- A pool is seeded with a page of two offers and advanced by a log that cannot be read; another
is seeded later, from a page that hints at an offer behind it. An offer fails, and the report of it
is delivered twice. -/
theorem onLogs_reseeded_failed_offer :
    let market : Market := ⟨0xaa, 0xbb, 1⟩
    let offers : List HeldOffer :=
      [.usual 9 ⟨-1, by decide, by decide⟩ 5, .usual 4 ⟨3, by decide, by decide⟩ 7]
    let reader (next : UInt64) : Reader :=
      (InMemoryReader.mk 10 [⟨market, next, offers⟩] false false).reader
    let unread : Log := ⟨0, [], [], some 12, none, none, some 3, false⟩
    let fail := ((Emitter.new market 14).emitBook (.offerFail 4)).1
    let unseeded := new "mangrove" .arbitrum market .default
    let old := unseeded.run [.seed (reader 0) 10, .feed unread]
    let logs := [fail, fail]
    let p := (old.onLogs logs).value
    let q := (((unseeded.run []).seed (reader 5) 13).value.1.onLogs logs).value
    old.lastLog = some (12, 3) ∧ p.2 = q.2 ∧ p.1.nesting = q.1.nesting ∧
      p.1.lastLog = q.1.lastLog ∧
      Option.Rel (SameAnswer 13) (p.1.stateAt? 13) (q.1.stateAt? 13) ∧
      Option.Rel (SameAnswer 13) (p.1.stateAt? 14) (q.1.stateAt? 14) := by
  intro market offers reader unread fail unseeded old logs p q
  let page : Contract.OfferList := (HeldMarket.mk market 5 offers).page 100
  let latest : Book := ⟨12, 0,
    [⟨9, ⟨⟨-1, by decide, by decide⟩, 5, none, some 4⟩, ⟨0xbb, 150000, 300, 3⟩⟩,
      ⟨4, ⟨⟨3, by decide, by decide⟩, 7, some 9, none⟩, ⟨0xbb, 150000, 300, 3⟩⟩]⟩
  have hlatest : old.latest? = some latest := by decide +kernel
  have hfetched : (unseeded.run []).fetcher.Accepts (reader 5) 13 page
      { latest with block := 13, nextOffer := 5 } :=
    ⟨⟨true, page.encode⟩, [], by decide +kernel, rfl, by decide +kernel, by decide +kernel⟩
  have hlists : Book.Lists page latest.entries :=
    ⟨by decide +kernel, by decide +kernel, by decide +kernel, by decide +kernel⟩
  have hbehind : ∀ log ∈ logs, ∀ block, log.block = some block → 13 < block := by
    intro log hlog block hblock
    obtain rfl : log = fail := by simpa [logs] using hlog
    obtain rfl : 14 = block := Option.some.inj hblock
    decide
  have haccepts : old.Accepts fail latest 14 := ⟨rfl, rfl, hlatest, by decide +kernel⟩
  have hlast : old.lastLog = some (12, 3) := by decide +kernel
  have hsplit : logs = [] ++ fail :: [fail] := rfl
  -- From here on the logs are any that meet these facts, so that nothing evaluates the runs.
  clear_value logs
  obtain ⟨happlied, hnesting, hlasts, hanswers⟩ := onLogs_reseeded "mangrove" "mangrove" .arbitrum
    .arbitrum market .default [.seed (reader 0) 10, .feed unread] [] hlatest (by decide +kernel)
    (by decide) hfetched hlists hbehind (List.prefix_refl logs)
  exact ⟨hlast, happlied, hnesting,
    hlasts [] fail [fail] hsplit rfl fun hrefuses => hrefuses latest 14 haccepts,
    hanswers 13 (by decide), hanswers 14 (by decide)⟩

end Pool

end OfferBook
