import OfferBook.Proofs.Emission

/-!
# Offers listed twice

Of the three parts of a book's consistency a fetched book has two for certain. Its columns are
aligned, for the rows of the offer list are entries, and it is in order, for they are sorted. The
third, that no identifier occurs twice, it has from the list: rows are neither dropped nor
compared, so the book repeats an identifier exactly as often as the list does.

What hangs on it is removal, which takes out the first entry of an identifier and stops. A
retraction leaves one entry less of the offer than there was (`count_ids_remove`), hence none in a
consistent book, and still one where the list named the offer twice. Events keep a consistent book
consistent, so where the list was sound retractions are sound ever after.

## Main results

* `consistent_ofOfferList_iff`: a fetched book is consistent exactly if the list repeats nothing.
* `latest?_onLog_of_retracts`: what a retraction leaves.
* `fetched_consistent_iff`: what can be said of every accepted answer, and of the pools seeded
  with it.
-/

namespace OfferBook

/-- The offer that an event takes off the book whatever orders are open. -/
def BookEvent.retracted? : BookEvent → Option Word
  | offerRetract id | offerFail id => some id
  | offerSuccessWithPosthookData id | offerFailWithPosthookData id => some id
  | orderStart | orderComplete | offerWrite .. | offerSuccess _ => none

theorem Nesting.removed?_of_retracted? {e : BookEvent} {id : Word} (h : e.retracted? = some id)
    (n : Nesting) : n.removed? e = some id := by
  cases e with
  | orderStart | orderComplete | offerWrite | offerSuccess => cases h
  | _ => exact h

namespace Book

/-- Removal takes one entry of the identifier out, if there is one. -/
theorem count_ids_remove (b : Book) (id : Word) :
    (b.remove id).ids.count id = b.ids.count id - 1 := by
  have hids : (b.remove id).ids = b.ids.erase id := by
    have hsame : (fun e : Entry => decide (e.id = id)) = (fun i => id == i) ∘ Entry.id := by
      funext e
      rw [Function.comp_apply, beq_eq_decide, decide_eq_decide]
      exact eq_comm
    rw [ids, ids, List.erase_eq_eraseP, List.eraseP_map, ← hsame]
    rfl
  rw [hids, List.count_erase_self]

/-- A fetched book is consistent exactly if the list repeats no identifier. -/
theorem consistent_ofOfferList_iff {block : Nat} {l : Contract.OfferList} {b : Book}
    (h : ofOfferList block l = .ok b) : b.Consistent ↔ l.ids.Nodup :=
  ⟨fun hb => (ids_ofOfferList_perm h).nodup_iff.mp hb.2,
    fun hl => ⟨ordered_ofOfferList h, (ids_ofOfferList_perm h).nodup_iff.mpr hl⟩⟩

end Book

/-- The book of an accepted answer is that of its list. -/
theorem Fetcher.Accepts.book_eq {f : Fetcher} {r : Reader} {block : Nat}
    {l : Contract.OfferList} {b : Book} (h : f.Accepts r block l b) :
    Book.ofOfferList block l = .ok b := by
  obtain ⟨result, rest, -, -, -, hbook⟩ := h
  exact hbook

namespace Pool

variable {dex : String} {d : Deployment} {m : Market} {c : PoolConfig} {p : Pool}

/-- Feeding the log applies an event that takes the offer off whatever orders are open. -/
def Retracts (p : Pool) (log : Log) (id : Word) : Prop :=
  ∃ e, (p.onLog log).value.applied = some e ∧ e.event.retracted? = some id

/-- After a retraction the latest snapshot is the one before without the offer. -/
theorem latest?_onLog_of_retracts (hw : p.history.Wf) {log : Log} {id : Word}
    (h : p.Retracts log id) : ∃ before block, p.latest? = some before ∧
      (p.onLog log).value.pool.latest? = some ((before.remove id).atBlock block) := by
  obtain ⟨e, happlied, hretracted⟩ := h
  rcases p.refuses_or_accepts log with hrefuses | ⟨before, block, haccepts⟩
  · rw [onLog_of_refuses hrefuses] at happlied
    cases happlied
  · rw [onLog_of_accepts hw haccepts] at happlied ⊢
    obtain ⟨event, hevent, rfl⟩ := Option.map_eq_some_iff.mp happlied
    have hremoved : p.nesting.removed? event = some id :=
      Nesting.removed?_of_retracted? hretracted p.nesting
    have hbook : (p.outcome log before).book = before.remove id := by
      rw [outcome, hevent, BookState.follow, BookState.book_apply_removed hremoved]
    refine ⟨before, block, haccepts.latest_eq, ?_⟩
    rw [latest?, history_noteLast, History.latest?_insert, hbook]

/-- Feeding logs is a run without attempts to seed. -/
theorem onLogs_eq_run (p : Pool) (logs : List Log) :
    (p.onLogs logs).value.1 = p.run (logs.map .feed) := by
  induction logs generalizing p with
  | nil => rfl
  | cons log rest ih =>
      rw [onLogs_cons, List.map_cons, run_cons]
      exact ih _

/-- Logs keep the books of a pool consistent. -/
theorem consistent_onLogs (hw : p.history.Wf)
    (h : ∀ b ∈ p.history.snapshots, b.Consistent) (logs : List Log) :
    ∀ b ∈ (p.onLogs logs).value.1.history.snapshots, b.Consistent := by
  rw [onLogs_eq_run]
  refine snapshots_run_induction hw _ h (fun r block b hmem _ => ?_)
    (fun s e hs => BookState.consistent_apply hs e) (fun b block h => h)
  simp at hmem

/-- A successful attempt to seed a pool leaves one snapshot: the book of an accepted list. -/
theorem snapshots_seed_of_ok {r : Reader} {block : Nat} (h : (p.seed r block).value.2 = none) :
    ∃ l b, p.fetcher.Accepts r block l b ∧ (p.seed r block).value.1.history.snapshots = [b] := by
  cases hfetch : (p.fetcher.tryFetch r block).value with
  | error fault => cases h.symm.trans (fault_seed.mpr hfetch)
  | ok b =>
      obtain ⟨l, haccepts⟩ := Fetcher.tryFetch_eq_ok_iff.mp hfetch
      refine ⟨l, b, haccepts, ?_⟩
      rw [seed_of_ok hfetch]
      exact History.snapshots_insert_clear p.history b

/-- A retraction that is emitted into a later block is one to every pool of the market. -/
theorem retracts_emitBook (h : Reachable dex d m c p) {latest : Book}
    (hlatest : p.latest? = some latest) {block : Nat} (hlater : latest.block < block)
    {e : BookEvent} {id : Word} (he : e.retracted? = some id) :
    p.Retracts ((Emitter.new m block).emitBook e).1 id := by
  let log := ((Emitter.new m block).emitBook e).1
  have hmarket : p.market = m := congrArg Fetcher.market h.setUpAlike.fetcher
  have hevent : log.event? m.hash = some e := (Emitter.new m block).event?_emitBook e
  have hstanding : log.removed = false := rfl
  obtain ⟨happlied, -⟩ := expects_onLog (h.bookkeeping.expects hlatest hlater 0) hstanding rfl
  rw [hmarket, hevent, Option.map_some] at happlied
  exact ⟨_, happlied, he⟩

/-- **What is accepted from the chain.** Whatever the answer to the batch that describes a market,
a book that is made of it has its columns aligned and its offers in order, and it is consistent
exactly if the list that was accepted repeats no identifier.

In a pool that was seeded with such a list, whatever had happened to it before, the first
retraction, failure or event with data of an offer leaves one entry less of it than were listed.
Where the list repeats no identifier, no such event ever leaves an entry of its offer in the book,
whatever logs came in between. -/
theorem fetched_consistent_iff (r : Reader) (block : Nat) :
    (∀ (f : Fetcher) b, (f.tryFetch r block).value = .ok b →
      (b.ids.length = b.offers.length ∧ b.offers.length = b.details.length) ∧
        b.offers.Pairwise (fun x y => x.tick ≤ y.tick) ∧
        ∃ l, f.Accepts r block l b ∧ (b.Consistent ↔ l.ids.Nodup)) ∧
      ∀ dex d m c p, Reachable dex d m c p → (p.seed r block).value.2 = none →
        let seeded := (p.seed r block).value.1
        ∃ l b, p.fetcher.Accepts r block l b ∧ seeded.latest? = some b ∧
          (∀ log id, seeded.Retracts log id →
            ∃ after, (seeded.onLog log).value.pool.latest? = some after ∧
              after.ids.count id = l.ids.count id - 1) ∧
          (l.ids.Nodup → ∀ logs log id, (seeded.onLogs logs).value.1.Retracts log id →
            ∃ after, ((seeded.onLogs logs).value.1.onLog log).value.pool.latest? = some after ∧
              id ∉ after.ids) := by
  refine ⟨fun f b hfetch => ?_, fun dex d m c p hreachable hok => ?_⟩
  · obtain ⟨l, haccepts⟩ := Fetcher.tryFetch_eq_ok_iff.mp hfetch
    have hbook := haccepts.book_eq
    exact ⟨by simp [Book.ids, Book.offers, Book.details],
      List.pairwise_map.mpr (Book.ordered_ofOfferList hbook), l, haccepts,
      Book.consistent_ofOfferList_iff hbook⟩
  · intro seeded
    obtain ⟨l, b, haccepts, hsnapshots⟩ := snapshots_seed_of_ok hok
    have hbook := haccepts.book_eq
    have hlatest : seeded.latest? = some b := by rw [latest?, History.latest?, hsnapshots]; rfl
    have hwf : seeded.history.Wf := (hreachable.seed r block).wf
    refine ⟨l, b, haccepts, hlatest, fun log id hretracts => ?_,
      fun hnodup logs log id hretracts => ?_⟩
    · obtain ⟨before, _, hbefore, hafter⟩ := latest?_onLog_of_retracts hwf hretracts
      obtain rfl : b = before := Option.some.inj (hlatest.symm.trans hbefore)
      refine ⟨_, hafter, (b.count_ids_remove id).trans ?_⟩
      rw [(Book.ids_ofOfferList_perm hbook).count_eq]
    · have hconsistent : ∀ t ∈ seeded.history.snapshots, t.Consistent := by
        intro t ht
        rw [hsnapshots, List.mem_singleton] at ht
        exact ht ▸ (Book.consistent_ofOfferList_iff hbook).mpr hnodup
      have hwfs : (seeded.onLogs logs).value.1.history.Wf := by
        rw [onLogs_eq_run]
        exact wf_run hwf _
      obtain ⟨before, _, hbefore, hafter⟩ := latest?_onLog_of_retracts hwfs hretracts
      have hnodups : before.ids.Nodup :=
        (consistent_onLogs hwf hconsistent logs before (List.mem_of_head? hbefore)).2
      exact ⟨_, hafter, fun hid => ((Book.mem_ids_remove hnodups).mp hid).2 rfl⟩

/-- The first of three rows and the last name one offer. One retraction of it leaves the other
row; where the offer is listed once, none is left. -/
theorem fetched_consistent_iff_listed_twice :
    let market : Market := ⟨0xaa, 0xbb, 1⟩
    let listing (ids : List Word) : Contract.OfferList :=
      ⟨0, ids, ids.map fun _ => ⟨0, 0, 1, 10⟩, ids.map fun _ => ⟨0xcc, 1, 2, 3⟩⟩
    let listed (ids : List Word) : Reader :=
      ⟨.ok 10, fun _ _ => .ok [⟨true, (listing ids).encode⟩]⟩
    let p := new "mangrove" .arbitrum market .default
    let retraction := ((Emitter.new market 11).emitBook (.offerRetract 5)).1
    let left (ids : List Word) :=
      ((p.seed (listed ids) 10).value.1.onLog retraction).value.pool.latest?
    (∃ after, left [5, 7, 5] = some after ∧ after.ids.count 5 = 1) ∧
      ∃ after, left [5, 7] = some after ∧ 5 ∉ after.ids := by
  intro market listing listed p retraction left
  have hpools (ids : List Word) := (fetched_consistent_iff (listed ids) 10).2
  have hnew : Reachable "mangrove" .arbitrum market .default p := .new
  have hids (ids : List Word) {l : Contract.OfferList} {b : Book}
      (hfits : (listing ids).encode.length ≤ Word.max64)
      (haccepts : p.fetcher.Accepts (listed ids) 10 l b) : l.ids = ids ∧ b.block < 11 := by
    obtain ⟨result, rest, hbatch, -, hl, hbook⟩ := haccepts
    obtain ⟨rfl, -⟩ := List.cons.inj (Except.ok.inj hbatch)
    have hlisting := Contract.OfferList.decode?_encode _ hfits []
    rw [List.append_nil] at hlisting
    refine ⟨by rw [← Option.some.inj (hlisting.symm.trans hl)], ?_⟩
    rw [Book.block_ofOfferList hbook]
    decide
  constructor
  · obtain ⟨l, b, haccepts, hlatest, hfirst, -⟩ :=
      hpools [5, 7, 5] _ _ _ _ p hnew (by decide +kernel)
    obtain ⟨hl, hblock⟩ := hids _ (by decide +kernel) haccepts
    obtain ⟨after, hafter, hcount⟩ :=
      hfirst retraction 5 (retracts_emitBook (hnew.seed _ 10) hlatest hblock rfl)
    exact ⟨after, hafter, by rw [hcount, hl]; decide⟩
  · obtain ⟨l, b, haccepts, hlatest, -, hever⟩ :=
      hpools [5, 7] _ _ _ _ p hnew (by decide +kernel)
    obtain ⟨hl, hblock⟩ := hids _ (by decide +kernel) haccepts
    have hnever := hever (by rw [hl]; decide) []
    simp only [onLogs_nil] at hnever
    exact hnever retraction 5 (retracts_emitBook (hnew.seed _ 10) hlatest hblock rfl)

/-- A list that names one offer at two ticks makes a book, and one retraction of the offer leaves
it there. -/
theorem inconsistent_book_accepted :
    let f : Fetcher := ⟨0xcc, ⟨0xaa, 0xbb, 1⟩, 100⟩
    let l : Contract.OfferList :=
      ⟨0, [5, 5], [⟨0, 0, 1, 10⟩, ⟨0, 0, 2, 20⟩], [⟨0xdd, 1, 2, 3⟩, ⟨0xdd, 1, 2, 3⟩]⟩
    let r : Reader := ⟨.ok 10, fun _ _ => .ok [⟨true, l.encode⟩]⟩
    let b : Book := ⟨10, 0,
      [⟨5, .written ⟨1, by decide, by decide⟩ 10, ⟨0xdd, 1, 2, 3⟩⟩,
        ⟨5, .written ⟨2, by decide, by decide⟩ 20, ⟨0xdd, 1, 2, 3⟩⟩]⟩
    (f.tryFetch r 10).value = .ok b ∧ ¬ b.Consistent ∧
      (BookState.apply ⟨b, .idle⟩ (.offerRetract 5)).value.book.ids = [5] := by
  decide +kernel

end Pool

end OfferBook
