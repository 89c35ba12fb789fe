import Mathlib.Data.Finset.Sort
import OfferBook.Emitter
import OfferBook.Proofs.Run

/-!
# Replaying a chain up to a block

What a pool answers for a past block can be said without a pool: take the book it was seeded
with, apply to it every event that the logs carry for the market up to that block, and none of a
later log. `bookUpTo` is that book. The blocks for which snapshots are taken can be said without
a pool as well: they are the block of seeding and the blocks of the logs, of whatever kind
(`snapshotBlocks`). A history retains as many of the latest as fit.

`Replays` says so of a pool, and is the invariant that feeding the next log keeps
(`replays_onLog`). It needs the logs to come as a chain delivers them, behind the seeding and at
growing positions (`Orderly`): then every log is accepted, and its block is either the latest
or a new one behind it. In both cases the snapshots of earlier blocks stay what they were,
because the log is in none of them.

## Main results

* `replays_onLog`, `replays_onLogs`: the invariant, for one log and for a run.
* `stateAt?_onLogs`: what a seeded pool answers for every block.
-/

namespace OfferBook

namespace BookState

/-- Events do not look at the block of a book. -/
theorem book_apply_atBlock (s : BookState) (block : Nat) (e : BookEvent) :
    (apply ⟨s.book.atBlock block, s.nesting⟩ e).value.book =
      (s.apply e).value.book.atBlock block := by
  cases hw : e.written? with
  | some id =>
      obtain ⟨maker, tick, gives, gasreq, gasprice, rfl⟩ :=
        BookEvent.eq_offerWrite_of_written? hw
      rw [book_apply_write, book_apply_write]
      rfl
  | none =>
      cases hr : s.nesting.removed? e with
      | some id =>
          rw [book_apply_removed (s := ⟨s.book.atBlock block, s.nesting⟩) hr,
            book_apply_removed hr]
          rfl
      | none =>
          rw [book_apply_other (s := ⟨s.book.atBlock block, s.nesting⟩) hw hr,
            book_apply_other hw hr]

private theorem follow_atBlock (s : BookState) (block : Nat) (e : Option BookEvent) :
    follow ⟨s.book.atBlock block, s.nesting⟩ e =
      ⟨(s.follow e).book.atBlock block, (s.follow e).nesting⟩ := by
  cases e with
  | none => rfl
  | some e =>
      have hbook := book_apply_atBlock s block e
      have hnesting : (apply ⟨s.book.atBlock block, s.nesting⟩ e).value.nesting =
          (s.apply e).value.nesting := by rw [nesting_apply, nesting_apply]
      rw [follow, follow, ← hbook, ← hnesting]

end BookState

/-! ## The replay -/

/-- Logs as a chain delivers them behind a block: standing, placed in later blocks, and at
positions that grow. -/
structure Orderly (seed : Nat) (logs : List Log) : Prop where
  standing : ∀ log ∈ logs, log.removed = false
  placed : ∀ log ∈ logs, ∃ block index, log.position? = some (block, index) ∧ seed < block
  growing : logs.Pairwise fun x y =>
    ∀ a b, x.position? = some a → y.position? = some b → positionLe b a = false

/-- The blocks that snapshots are taken of: that of the seeding and those of the logs. -/
def snapshotBlocks (seed : Nat) (logs : List Log) : Finset Nat :=
  insert seed (logs.filterMap Log.block).toFinset

/-- The events that logs carry for a market up to a block, and none of later blocks. -/
def eventsUpTo (market : Word) (logs : List Log) (block : Nat) : List BookEvent :=
  (logs.filter fun log => log.block.any (· ≤ block)).filterMap (Log.event? market)

/-- The book that these events make of a first book. -/
def bookUpTo (market : Word) (first : Book) (logs : List Log) (block : Nat) : Book :=
  (BookState.applyAll ⟨first, .idle⟩ (eventsUpTo market logs block)).book

/-- That book as the snapshot of the block. -/
def snapshotAt (market : Word) (first : Book) (logs : List Log) (block : Nat) : Book :=
  (bookUpTo market first logs block).atBlock block

section Replay

variable {market : Word} {first : Book} {seed block : Nat} {logs : List Log} {log : Log}

theorem mem_snapshotBlocks {n : Nat} :
    n ∈ snapshotBlocks seed logs ↔ n = seed ∨ ∃ log ∈ logs, log.block = some n := by
  simp [snapshotBlocks]

theorem snapshotBlocks_concat (h : log.block = some block) :
    snapshotBlocks seed (logs ++ [log]) = insert block (snapshotBlocks seed logs) := by
  ext n
  rw [Finset.mem_insert, mem_snapshotBlocks, mem_snapshotBlocks]
  simp only [List.mem_append, List.mem_singleton]
  constructor
  · rintro (hn | ⟨l, hl | rfl, hn⟩)
    · exact .inr (.inl hn)
    · exact .inr (.inr ⟨l, hl, hn⟩)
    · exact .inl (Option.some.inj (hn.symm.trans h))
  · rintro (rfl | hn | ⟨l, hl, hn⟩)
    · exact .inr ⟨log, .inr rfl, h⟩
    · exact .inl hn
    · exact .inr ⟨l, .inl hl, hn⟩

/-- Up to a block that no log is behind, all events are replayed. -/
theorem eventsUpTo_eq_all (h : ∀ l ∈ logs, ∃ b, l.block = some b ∧ b ≤ block) :
    eventsUpTo market logs block = logs.filterMap (Log.event? market) := by
  have hall : (logs.filter fun log => log.block.any (· ≤ block)) = logs := by
    refine List.filter_eq_self.mpr fun l hl => ?_
    obtain ⟨b, hb, hle⟩ := h l hl
    simpa [hb] using hle
  rw [eventsUpTo, hall]

/-- A later log does not show in an earlier block. -/
theorem eventsUpTo_concat_of_lt {n : Nat} (h : log.block = some block) (hn : n < block) :
    eventsUpTo market (logs ++ [log]) n = eventsUpTo market logs n := by
  have hlog : ¬ block ≤ n := by omega
  simp [eventsUpTo, List.filter_append, h, hlog]

/-- Between two blocks without a log nothing changes. -/
theorem eventsUpTo_congr {n : Nat} (hle : n ≤ block)
    (h : ∀ l ∈ logs, ∀ b, l.block = some b → b ≤ block → b ≤ n) :
    eventsUpTo market logs block = eventsUpTo market logs n := by
  unfold eventsUpTo
  congr 1
  refine List.filter_congr fun l hl => ?_
  cases hb : l.block with
  | none => rfl
  | some b =>
      have hbn := h l hl b hb
      simp only [Option.any_some, decide_eq_decide]
      omega

namespace Orderly

theorem of_append {front back : List Log} (h : Orderly seed (front ++ back)) :
    Orderly seed front where
  standing := fun l hl => h.standing l (List.mem_append_left _ hl)
  placed := fun l hl => h.placed l (List.mem_append_left _ hl)
  growing := (List.pairwise_append.mp h.growing).1

/-- The last log stands in a block that is behind the seeding and not before any other log. -/
theorem last (h : Orderly seed (logs ++ [log])) :
    ∃ block, log.block = some block ∧ log.removed = false ∧ seed < block ∧
      (∀ l ∈ logs, ∃ b, l.block = some b ∧ b ≤ block) ∧
      ∀ l ∈ logs, ∀ there here, l.position? = some there → log.position? = some here →
        positionLe here there = false := by
  have hmem : log ∈ logs ++ [log] := List.mem_append_right _ (List.mem_singleton_self log)
  have hgrowing : ∀ l ∈ logs, ∀ there here, l.position? = some there →
      log.position? = some here → positionLe here there = false := by
    intro l hl
    exact (List.pairwise_append.mp h.growing).2.2 l hl log (List.mem_singleton_self log)
  obtain ⟨block, index, hpos, hseed⟩ := h.placed log hmem
  have hblock := Log.block_of_position? hpos
  refine ⟨block, hblock, h.standing log hmem, hseed, ?_, hgrowing⟩
  intro l hl
  obtain ⟨b, i, hb, -⟩ := h.placed l (List.mem_append_left _ hl)
  refine ⟨b, Log.block_of_position? hb, ?_⟩
  have hbehind := hgrowing l hl _ _ hb hpos
  have hle := positionLe_iff.mp (positionLe_total hbehind)
  simp only at hle
  omega

end Orderly

/-! ## Snapshots in a history -/

/-- The blocks of snapshots, latest first. -/
private theorem pairwise_sort_gt (blocks : Finset Nat) :
    (blocks.sort (· ≥ ·)).Pairwise fun a b => b < a :=
  (Finset.sortedGT_sort blocks).pairwise

private theorem dropWhile_eq_self {ns : List Nat} (h : ∀ n ∈ ns, n < block) :
    (ns.dropWhile fun n => block ≤ n) = ns := by
  cases ns with
  | nil => rfl
  | cons n rest =>
      have hn := h n List.mem_cons_self
      exact List.dropWhile_cons_of_neg (by simpa using hn)

/-- A block that is not before any other comes in front of the earlier ones. -/
private theorem sort_insert_latest {blocks : Finset Nat} (h : ∀ n ∈ blocks, n ≤ block) :
    (insert block blocks).sort (· ≥ ·) =
      block :: (blocks.sort (· ≥ ·)).dropWhile fun n => block ≤ n := by
  have hdesc := pairwise_sort_gt blocks
  have hsorted : ∀ n ∈ blocks.sort (· ≥ ·), n ≤ block := fun n hn =>
    h n ((Finset.mem_sort _).mp hn)
  by_cases hmem : block ∈ blocks
  · rw [Finset.insert_eq_self.mpr hmem]
    have hin : block ∈ blocks.sort (· ≥ ·) := (Finset.mem_sort _).mpr hmem
    cases hs : blocks.sort (· ≥ ·) with
    | nil => simp [hs] at hin
    | cons top rest =>
        rw [hs] at hdesc hin hsorted
        obtain ⟨htop, hrest⟩ := List.pairwise_cons.mp hdesc
        have hblock : block = top := by
          rcases List.mem_cons.mp hin with heq | hlow
          · exact heq
          · have hlt := htop block hlow
            have hle := hsorted top List.mem_cons_self
            omega
        subst hblock
        rw [List.dropWhile_cons_of_pos (by simp)]
        congr 1
        exact (dropWhile_eq_self htop).symm
  · rw [Finset.sort_insert _ h hmem]
    congr 1
    refine (dropWhile_eq_self fun n hn => ?_).symm
    have hle := hsorted n hn
    have hne : n ≠ block := fun heq => hmem (heq ▸ (Finset.mem_sort _).mp hn)
    omega

/-- What a history forgets by its capacity makes no difference to what it holds after the next
snapshot, as only the first block can be superseded. -/
private theorem take_cons_dropWhile_take {ns : List Nat} (capacity : Nat)
    (hdesc : ns.Pairwise fun a b => b < a) (h : ∀ n ∈ ns, n ≤ block) :
    (block :: (ns.take capacity).dropWhile fun n => block ≤ n).take capacity =
      (block :: ns.dropWhile fun n => block ≤ n).take capacity := by
  cases capacity with
  | zero => rfl
  | succ capacity =>
      cases ns with
      | nil => rfl
      | cons top rest =>
          obtain ⟨htop, -⟩ := List.pairwise_cons.mp hdesc
          have hle := h top List.mem_cons_self
          rw [List.take_succ_cons, List.take_succ_cons, List.take_succ_cons]
          congr 1
          by_cases hblock : block ≤ top
          · have hrest : ∀ n ∈ rest, n < block := fun n hn => by
              have hn := htop n hn
              omega
            rw [List.dropWhile_cons_of_pos (by simpa using hblock),
              List.dropWhile_cons_of_pos (by simpa using hblock), dropWhile_eq_self hrest,
              dropWhile_eq_self fun n hn => hrest n (List.mem_of_mem_take hn), List.take_take,
              Nat.min_self]
          · rw [List.dropWhile_cons_of_neg (by simpa using hblock),
              List.dropWhile_cons_of_neg (by simpa using hblock), ← List.take_succ_cons,
              List.take_take, Nat.min_eq_left (Nat.le_succ capacity)]

/-- Where the snapshots are a function of their blocks, storing one more that differs from that
function at no earlier block stores it in front of the earlier ones. -/
private theorem snapshots_insert_map {h : History} (hw : h.Wf) {f g : Nat → Book} {ns : List Nat}
    (hs : h.snapshots = ns.map f) (hf : ∀ n, (f n).block = n) (hg : ∀ n, (g n).block = n)
    (hfg : ∀ n < block, f n = g n) :
    (h.insert (g block)).snapshots =
      ((block :: ns.dropWhile fun n => block ≤ n).take h.capacity).map g := by
  have hdrop : (h.snapshots.dropWhile fun t => block ≤ t.block) =
      (ns.dropWhile fun n => block ≤ n).map f := by
    rw [hs, List.dropWhile_map]
    congr 2
    funext n
    rw [Function.comp_apply, hf]
  have hmap : (ns.dropWhile fun n => block ≤ n).map f =
      (ns.dropWhile fun n => block ≤ n).map g := by
    refine List.map_congr_left fun n hn => hfg n ?_
    have hmem : f n ∈ h.snapshots.dropWhile fun t => block ≤ t.block := by
      rw [hdrop]
      exact List.mem_map_of_mem hn
    have hlt := History.block_lt_of_mem_dropWhile hw.descending hmem
    rw [hf] at hlt
    exact hlt
  rw [History.insert, hg, hdrop, hmap, ← List.map_cons, List.map_take]

/-! ## The invariant -/

/-- The pool holds what the replay of the logs makes of the first book. -/
structure Replays (market : Word) (first : Book) (seed : Nat) (logs : List Log) (p : Pool) :
    Prop where
  wf : p.history.Wf
  market_eq : p.market.hash = market
  seededAt : p.seededAt = some seed
  lastLog : ∀ last, p.lastLog = some last → ∃ log ∈ logs, log.position? = some last
  nesting : p.nesting = Nesting.idle.applyAll (logs.filterMap (Log.event? market))
  snapshots : p.history.snapshots =
    (((snapshotBlocks seed logs).sort (· ≥ ·)).take p.history.capacity).map
      (snapshotAt market first logs)

namespace Pool

variable {p : Pool}

/-- The latest snapshot of a pool that replays logs is that of the latest block. -/
theorem latest?_of_replays (h : Replays market first seed logs p) :
    ∃ top ∈ snapshotBlocks seed logs, (∀ n ∈ snapshotBlocks seed logs, n ≤ top) ∧
      p.latest? = some (snapshotAt market first logs top) := by
  have hseed : seed ∈ (snapshotBlocks seed logs).sort (· ≥ ·) :=
    (Finset.mem_sort _).mpr (mem_snapshotBlocks.mpr (.inl rfl))
  have hdesc := pairwise_sort_gt (snapshotBlocks seed logs)
  have hsnapshots := h.snapshots
  cases hs : (snapshotBlocks seed logs).sort (· ≥ ·) with
  | nil => simp [hs] at hseed
  | cons top rest =>
      rw [hs] at hdesc hsnapshots
      have hmem : ∀ n, n ∈ snapshotBlocks seed logs ↔ n ∈ top :: rest := fun n => by
        rw [← hs, Finset.mem_sort]
      refine ⟨top, (hmem top).mpr List.mem_cons_self, fun n hn => ?_, ?_⟩
      · rcases List.mem_cons.mp ((hmem n).mp hn) with rfl | hn
        · exact Nat.le_refl n
        · exact Nat.le_of_lt ((List.pairwise_cons.mp hdesc).1 n hn)
      · have hone := p.history.one_le_capacity
        obtain ⟨capacity, hcapacity⟩ : ∃ n, p.history.capacity = n + 1 :=
          ⟨p.history.capacity - 1, by omega⟩
        rw [latest?, History.latest?, hsnapshots, hcapacity]
        rfl

/-- What the pool makes of the next log is what the replay makes of it. -/
private theorem outcome_of_replays {top : Nat} (h : Replays market first seed logs p)
    (htop : ∀ l ∈ logs, ∃ b, l.block = some b ∧ b ≤ top) :
    p.outcome log (snapshotAt market first logs top) =
      let s := BookState.applyAll ⟨first, .idle⟩ ((logs ++ [log]).filterMap (Log.event? market))
      ⟨s.book.atBlock top, s.nesting⟩ := by
  have hnesting : p.nesting = (BookState.applyAll ⟨first, .idle⟩
      (logs.filterMap (Log.event? market))).nesting := by
    rw [h.nesting, BookState.nesting_applyAll]
  have hnext : (logs ++ [log]).filterMap (Log.event? market) =
      logs.filterMap (Log.event? market) ++ (log.event? market).toList := by
    rw [List.filterMap_append]
    cases he : log.event? market <;> simp [he]
  rw [outcome, snapshotAt, bookUpTo, eventsUpTo_eq_all htop, hnesting, h.market_eq,
    BookState.follow_atBlock, BookState.follow_eq_applyAll, ← BookState.applyAll_append, hnext]

/-- Feeding the next log of a chain keeps the invariant. -/
theorem replays_onLog (h : Replays market first seed logs p)
    (horderly : Orderly seed (logs ++ [log])) :
    Replays market first seed (logs ++ [log]) (p.onLog log).value.pool := by
  obtain ⟨block, hblock, hstanding, hseed, hlogs, hlast⟩ := horderly.last
  obtain ⟨top, htop, hmax, hlatest⟩ := latest?_of_replays h
  have hblocks : ∀ n ∈ snapshotBlocks seed logs, n ≤ block := by
    intro n hn
    rcases mem_snapshotBlocks.mp hn with rfl | ⟨l, hl, hn⟩
    · omega
    · obtain ⟨b, hb, hle⟩ := hlogs l hl
      obtain rfl : n = b := Option.some.inj (hn.symm.trans hb)
      exact hle
  have haccepts : p.Accepts log (snapshotAt market first logs top) block := by
    refine ⟨hblock, hstanding, hlatest, reflects_eq_false_iff.mpr ⟨hblocks top htop, ?_, ?_⟩⟩
    · intro seeded hs
      rw [h.seededAt] at hs
      obtain rfl := Option.some.inj hs
      exact hseed
    · intro here last hhere hl
      obtain ⟨l, hl, hpos⟩ := h.lastLog last hl
      exact hlast l hl last here hpos hhere
  have hupTo : ∀ l ∈ logs, ∃ b, l.block = some b ∧ b ≤ top := by
    intro l hl
    obtain ⟨b, hb, -⟩ := hlogs l hl
    exact ⟨b, hb, hmax b (mem_snapshotBlocks.mpr (.inr ⟨l, hl, hb⟩))⟩
  have hall : ∀ l ∈ logs ++ [log], ∃ b, l.block = some b ∧ b ≤ block := by
    intro l hl
    rcases List.mem_append.mp hl with hl | hl
    · exact hlogs l hl
    · obtain rfl := List.mem_singleton.mp hl
      exact ⟨block, hblock, Nat.le_refl block⟩
  have hframe := onLog_frame p log
  have hfed := onLog_of_accepts h.wf haccepts
  rw [outcome_of_replays h hupTo] at hfed
  refine
    { wf := wf_onLog h.wf log
      market_eq := by rw [hframe.market, h.market_eq]
      seededAt := by rw [hframe.seededAt, h.seededAt]
      lastLog := ?_
      nesting := ?_
      snapshots := ?_ }
  · intro last hl
    rw [hfed, lastLog_noteLast] at hl
    cases hpos : log.position? with
    | some here =>
        obtain rfl : here = last := by simpa [hpos] using hl
        exact ⟨log, List.mem_append_right _ (List.mem_singleton_self log), hpos⟩
    | none =>
        obtain ⟨l, hmem, hl⟩ := h.lastLog last (by simpa [hpos] using hl)
        exact ⟨l, List.mem_append_left _ hmem, hl⟩
  · rw [hfed, nesting_noteLast]
    exact BookState.nesting_applyAll _ _
  · have hearlier : ∀ n < block,
        snapshotAt market first logs n = snapshotAt market first (logs ++ [log]) n := by
      intro n hn
      unfold snapshotAt bookUpTo
      rw [eventsUpTo_concat_of_lt hblock hn]
    have hnew : snapshotAt market first (logs ++ [log]) block =
        (BookState.applyAll ⟨first, .idle⟩
          ((logs ++ [log]).filterMap (Log.event? market))).book.atBlock block := by
      unfold snapshotAt bookUpTo
      rw [eventsUpTo_eq_all hall]
    have hsorted : ∀ n ∈ (snapshotBlocks seed logs).sort (· ≥ ·), n ≤ block := by
      intro n hn
      exact hblocks n ((Finset.mem_sort _).mp hn)
    -- The history never held what its capacity cut off, so it is put back before the new block
    -- goes in front: `take_cons_dropWhile_take` says that this makes no difference.
    rw [hframe.capacity, hfed, history_noteLast, snapshotBlocks_concat hblock,
      sort_insert_latest hblocks, ← take_cons_dropWhile_take _ (pairwise_sort_gt _) hsorted,
      ← snapshots_insert_map h.wf h.snapshots (fun _ => rfl) (fun _ => rfl) hearlier, hnew]
    rfl

/-- Feeding the next logs of a chain keeps the invariant. -/
theorem replays_onLogs (h : Replays market first seed logs p)
    {more : List Log} (horderly : Orderly seed (logs ++ more)) :
    Replays market first seed (logs ++ more) (p.onLogs more).value.1 := by
  induction more generalizing p logs with
  | nil =>
      rw [List.append_nil]
      exact h
  | cons log rest ih =>
      have hsplit : logs ++ log :: rest = (logs ++ [log]) ++ rest := by simp
      rw [hsplit] at horderly ⊢
      exact ih (replays_onLog h horderly.of_append) horderly

/-- A pool that was just seeded replays no logs. -/
theorem replays_restart (p : Pool) {b : Book} (hb : b.block = seed) :
    Replays p.market.hash b seed [] (p.restart seed b) where
  wf := History.wf_insert (History.wf_clear _) b
  market_eq := rfl
  seededAt := rfl
  lastLog := by
    intro last hl
    cases hl
  nesting := rfl
  snapshots := by
    have hone := p.history.one_le_capacity
    have htake : [seed].take p.history.capacity = [seed] := List.take_of_length_le hone
    have hblocks : snapshotBlocks seed [] = {seed} := rfl
    rw [hblocks, Finset.sort_singleton, capacity_restart, htake]
    subst hb
    exact History.snapshots_insert_clear p.history b

/-! ## What is answered -/

/-- The last of the latest blocks is that behind which these stand. -/
private theorem filter_eq_take {ns : List Nat} {k oldest : Nat}
    (hdesc : ns.Pairwise fun a b => b < a) (ho : (ns.take k).getLast? = some oldest) :
    (ns.filter fun n => oldest ≤ n) = ns.take k := by
  obtain ⟨front, hfront⟩ := List.getLast?_eq_some_iff.mp ho
  have hsplit : ns.take k ++ ns.drop k = ns := List.take_append_drop k ns
  rw [← hsplit] at hdesc
  obtain ⟨hkept, -, hlost⟩ := List.pairwise_append.mp hdesc
  have hin : ∀ n ∈ ns.take k, oldest ≤ n := by
    intro n hn
    rw [hfront] at hkept hn
    rcases List.mem_append.mp hn with hn | hn
    · have hlt := (List.pairwise_append.mp hkept).2.2 n hn oldest (List.mem_singleton_self _)
      omega
    · exact Nat.le_of_eq (List.mem_singleton.mp hn).symm
  have hout : ∀ n ∈ ns.drop k, ¬ oldest ≤ n := by
    intro n hn
    have hlt := hlost oldest (List.mem_of_getLast? ho) n hn
    omega
  calc
    (ns.filter fun n => oldest ≤ n)
        = (ns.take k).filter (fun n => oldest ≤ n) ++ (ns.drop k).filter fun n => oldest ≤ n := by
          rw [← List.filter_append, hsplit]
    _ = ns.take k ++ [] := by
          rw [List.filter_eq_self.mpr fun n hn => by simpa using hin n hn,
            List.filter_eq_nil_iff.mpr fun n hn => by simpa using hout n hn]
    _ = ns.take k := List.append_nil _

private theorem length_filter_sort (blocks : Finset Nat) (oldest : Nat) :
    ((blocks.sort (· ≥ ·)).filter fun n => oldest ≤ n).length =
      (blocks.filter (oldest ≤ ·)).card := by
  have hset : ((blocks.sort (· ≥ ·)).filter fun n => oldest ≤ n).toFinset =
      blocks.filter (oldest ≤ ·) := by
    ext n
    simp
  have hnodup := (Finset.sort_nodup blocks (· ≥ ·)).filter fun n => decide (oldest ≤ n)
  rw [← hset, List.toFinset_card_of_nodup hnodup]

/-- The oldest block that a pool answers for is as many places behind the latest as it retains
snapshots. -/
theorem oldestBlock?_of_replays (h : Replays market first seed logs p) :
    ∃ oldest, p.history.oldestBlock? = some oldest ∧ oldest ∈ snapshotBlocks seed logs ∧
      ((snapshotBlocks seed logs).filter (oldest ≤ ·)).card =
        min p.history.capacity (snapshotBlocks seed logs).card := by
  have hdesc := pairwise_sort_gt (snapshotBlocks seed logs)
  have hseed : seed ∈ (snapshotBlocks seed logs).sort (· ≥ ·) :=
    (Finset.mem_sort _).mpr (mem_snapshotBlocks.mpr (.inl rfl))
  have hone := p.history.one_le_capacity
  have hne : ((snapshotBlocks seed logs).sort (· ≥ ·)).take p.history.capacity ≠ [] := by
    intro hnil
    rcases List.take_eq_nil_iff.mp hnil with hzero | hnil
    · omega
    · rw [hnil] at hseed
      cases hseed
  have ho := List.getLast?_eq_some_getLast hne
  refine ⟨_, ?_, (Finset.mem_sort _).mp (List.mem_of_mem_take (List.mem_of_getLast? ho)), ?_⟩
  · rw [History.oldestBlock?, h.snapshots, List.getLast?_map, ho]
    rfl
  · have hcount := congrArg List.length (filter_eq_take hdesc ho)
    rw [List.length_take, Finset.length_sort, length_filter_sort] at hcount
    exact hcount

/-- From the oldest block on, the answer for a block is the replay up to it, as the snapshot of
the latest block at or before it. -/
theorem stateAt?_of_replays (h : Replays market first seed logs p)
    {oldest q : Nat} (ho : p.history.oldestBlock? = some oldest) (hq : oldest ≤ q) :
    ∃ t, p.stateAt? q = some t ∧
      IsGreatest {n | n ∈ snapshotBlocks seed logs ∧ n ≤ q} t.block ∧
      t = (bookUpTo market first logs q).atBlock t.block := by
  obtain ⟨t, ht⟩ := History.exists_atOrBefore? h.wf ho hq
  obtain ⟨hmem, hle, hlatest⟩ := History.atOrBefore?_spec h.wf ht
  rw [h.snapshots] at hmem
  obtain ⟨n, hn, rfl⟩ := List.mem_map.mp hmem
  have hblock : (snapshotAt market first logs n).block = n := rfl
  rw [hblock] at hle hlatest
  have hgreatest : ∀ k ∈ snapshotBlocks seed logs, k ≤ q → k ≤ n := by
    intro k hk hkq
    have hk : k ∈ (snapshotBlocks seed logs).sort (· ≥ ·) := (Finset.mem_sort _).mpr hk
    have hdesc := pairwise_sort_gt (snapshotBlocks seed logs)
    rw [← List.take_append_drop p.history.capacity ((snapshotBlocks seed logs).sort (· ≥ ·))]
      at hk hdesc
    rcases List.mem_append.mp hk with hk | hk
    · have hkept : snapshotAt market first logs k ∈ p.history.snapshots := by
        rw [h.snapshots]
        exact List.mem_map_of_mem hk
      exact hlatest _ hkept hkq
    · exact Nat.le_of_lt ((List.pairwise_append.mp hdesc).2.2 n hn k hk)
  refine ⟨_, ht, ⟨⟨(Finset.mem_sort _).mp (List.mem_of_mem_take hn), hle⟩, fun k hk =>
    hgreatest k hk.1 hk.2⟩, ?_⟩
  have hevents : eventsUpTo market logs q = eventsUpTo market logs n :=
    eventsUpTo_congr hle fun l hl b hb hbq =>
      hgreatest b (mem_snapshotBlocks.mpr (.inr ⟨l, hl, hb⟩)) hbq
  rw [snapshotAt, bookUpTo, bookUpTo, hevents]
  rfl

/-- **Every answer is a replay.** A pool is seeded, after whatever happened to it before, and is
then fed with logs as a chain delivers them, of any kind. Its oldest block is as many places
behind the latest as it retains snapshots, among the block of seeding and the blocks of the logs,
or the first of these if they are fewer. For a block before it there is no answer. For every
other block the answer is the fetched book with the events of the market applied that the logs up
to that block carry, no more and no less, as of the latest block at or before the one asked
for. -/
theorem stateAt?_onLogs (dex : String) (d : Deployment) (m : Market) (c : PoolConfig)
    (before : List Action) (r : Reader)
    (hfetched : ((new dex d m c).fetcher.tryFetch r seed).value = .ok first)
    (horderly : Orderly seed logs) :
    let p := ((((new dex d m c).run before).seed r seed).value.1.onLogs logs).value.1
    ∃ oldest, p.history.oldestBlock? = some oldest ∧ oldest ∈ snapshotBlocks seed logs ∧
      ((snapshotBlocks seed logs).filter (oldest ≤ ·)).card =
        min c.retained (snapshotBlocks seed logs).card ∧
      ∀ q, (q < oldest → p.stateAt? q = none) ∧
        (oldest ≤ q → ∃ t, p.stateAt? q = some t ∧
          IsGreatest {n | n ∈ snapshotBlocks seed logs ∧ n ≤ q} t.block ∧
          t = (bookUpTo m.hash first logs q).atBlock t.block) := by
  intro p
  have hnew := fetcher_run (new dex d m c) before
  have hseeded : (((new dex d m c).run before).seed r seed).value.1 =
      ((new dex d m c).run before).restart seed first :=
    seed_of_ok (by rw [hnew.1]; exact hfetched)
  have hmarket : ((new dex d m c).run before).market = m := congrArg Fetcher.market hnew.1
  have hstart := replays_restart ((new dex d m c).run before) (Fetcher.block_tryFetch hfetched)
  rw [hmarket] at hstart
  have hp : p = ((((new dex d m c).run before).restart seed first).onLogs logs).value.1 := by
    rw [← hseeded]
  have hreplays : Replays m.hash first seed logs p := hp ▸ replays_onLogs hstart horderly
  have hcapacity : p.history.capacity = c.retained := by
    rw [hp, (onLogs_frame _ logs).capacity]
    have hpos := c.retained_pos
    have hmax : (new dex d m c).history.capacity = max c.retained 1 := rfl
    rw [capacity_restart, hnew.2, hmax]
    omega
  obtain ⟨oldest, ho, hmem, hcount⟩ := oldestBlock?_of_replays hreplays
  rw [hcapacity] at hcount
  exact ⟨oldest, ho, hmem, hcount, fun q =>
    ⟨fun hq => History.atOrBefore?_eq_none hreplays.wf ho hq,
      fun hq => stateAt?_of_replays hreplays ho hq⟩⟩

/-- Two snapshots are retained of three: that of the seeding is forgotten behind a write, an order
that another market starts in the same block, and a log that cannot be read. -/
theorem stateAt?_onLogs_retained_two :
    let market : Market := ⟨0xaa, 0xbb, 1⟩
    let served : InMemoryReader :=
      ⟨10, [⟨market, 0, [.usual 4 ⟨3, by decide, by decide⟩ 7]⟩], false, false⟩
    let first : Book :=
      ⟨10, 0, [⟨4, ⟨⟨3, by decide, by decide⟩, 7, none, none⟩, ⟨0xbb, 150000, 300, 3⟩⟩]⟩
    let write : BookEvent := .offerWrite 5 0xdd ⟨2, by decide, by decide⟩ 6 100000 2
    let logs := [((Emitter.new market 11).emitBook write).1,
      { ((Emitter.new ⟨0xcc, 0xdd, 1⟩ 11).emitBook .orderStart).1 with index := some 1 },
      (Emitter.new market 13).emitGarbage.1]
    let start := new "mangrove" .arbitrum market (PoolConfig.default.withRetained 2)
    let p := ((start.seed served.reader 10).value.1.onLogs logs).value.1
    (start.fetcher.tryFetch served.reader 10).value = .ok first ∧ Orderly 10 logs ∧
      p.stateAt? 10 = none ∧ ∃ t, p.stateAt? 12 = some t ∧ t.block = 11 ∧
        t = (bookUpTo market.hash first logs 12).atBlock 11 := by
  intro market served first write logs start p
  have hfetched : (start.fetcher.tryFetch served.reader 10).value = .ok first := by
    decide +kernel
  have horderly : Orderly 10 logs := by
    refine ⟨?_, ?_, ?_⟩
    · simp only [logs, List.forall_mem_cons]
      exact ⟨rfl, rfl, rfl, List.forall_mem_nil _⟩
    · simp only [logs, List.forall_mem_cons]
      exact ⟨⟨11, 0, rfl, by decide⟩, ⟨11, 1, rfl, by decide⟩, ⟨13, 0, rfl, by decide⟩,
        List.forall_mem_nil _⟩
    · have behind : ∀ {x y : Log} {a b}, x.position? = some a → y.position? = some b →
          positionLe b a = false → ∀ a b, x.position? = some a → y.position? = some b →
            positionLe b a = false := by
        intro x y a b hx hy h a' b' ha hb
        obtain rfl : a = a' := Option.some.inj (hx.symm.trans ha)
        obtain rfl : b = b' := Option.some.inj (hy.symm.trans hb)
        exact h
      simp only [logs, List.pairwise_cons, List.forall_mem_cons]
      exact ⟨⟨behind rfl rfl rfl, behind rfl rfl rfl, List.forall_mem_nil _⟩,
        ⟨behind rfl rfl rfl, List.forall_mem_nil _⟩, List.forall_mem_nil _, .nil⟩
  have hblocks : snapshotBlocks 10 logs = {10, 11, 13} := by decide +kernel
  obtain ⟨oldest, ho, hmem, hcount, hanswers⟩ := stateAt?_onLogs "mangrove" .arbitrum market
    (PoolConfig.default.withRetained 2) [] served.reader hfetched horderly
  rw [hblocks] at hmem hcount hanswers
  have holdest : oldest = 11 := by
    simp only [Finset.mem_insert, Finset.mem_singleton] at hmem
    rcases hmem with rfl | rfl | rfl
    · exact absurd hcount (by decide)
    · rfl
    · exact absurd hcount (by decide)
  subst holdest
  obtain ⟨t, ht, hgreatest, hbook⟩ := (hanswers 12).2 (by decide)
  have hblock : t.block = 11 := by
    have hin := hgreatest.1
    have hmax := hgreatest.2 (show 11 ∈ _ from ⟨by decide, by decide⟩)
    simp only [Set.mem_ofPred_eq, Finset.mem_insert, Finset.mem_singleton] at hin
    omega
  rw [hblock] at hbook
  exact ⟨hfetched, horderly, (hanswers 10).1 (by decide), t, ht, hblock, hbook⟩

end Pool

end Replay

end OfferBook
