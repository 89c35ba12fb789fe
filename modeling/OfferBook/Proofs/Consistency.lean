import Mathlib.Data.List.Nodup
import OfferBook.Proofs.Effect

/-!
# Consistent books

A book is consistent when its entries stand in order of their ticks and no identifier occurs
twice. Both halves are needed to say what the two elementary changes do: removal stops at the
first entry of an identifier, and insertion looks for a place from the front. In a consistent
book removal takes out all that has the identifier (`entries_remove`), and insertion separates
the entries that are no worse from those that are (`pairwise_insert`).

Order needs nobody's help: a fetched book has it whatever was listed, and every event keeps it.
Identifiers are kept apart only as long as they were apart at the start, since nothing looks for
a repetition in a listed offer list.

## Main results

* `ordered_ofOfferList`, `ids_ofOfferList_perm`: what a fetched book is like.
* `ordered_apply`, `consistent_apply`: every event keeps a book in order, and consistent.
-/

namespace OfferBook

/-! ## Order, tick by tick -/

namespace Entry

variable {es fs : List Entry}

private theorem mem_iff_of_filter_tick
    (h : ∀ t, (es.filter fun e => e.tick = t) = fs.filter fun e => e.tick = t) (e : Entry) :
    e ∈ es ↔ e ∈ fs := by
  have hat := congrArg (e ∈ ·) (h e.tick)
  simpa using hat

/-- Entries in order are determined by those at each tick. -/
theorem eq_of_filter_tick (hes : es.Pairwise fun x y => x.tick ≤ y.tick)
    (hfs : fs.Pairwise fun x y => x.tick ≤ y.tick)
    (h : ∀ t, (es.filter fun e => e.tick = t) = fs.filter fun e => e.tick = t) : es = fs := by
  induction es generalizing fs with
  | nil =>
      cases fs with
      | nil => rfl
      | cons f fs => simpa using (mem_iff_of_filter_tick h f).mpr List.mem_cons_self
  | cons e es ih =>
      cases fs with
      | nil => simpa using (mem_iff_of_filter_tick h e).mp List.mem_cons_self
      | cons f fs =>
          obtain ⟨he, htail⟩ := List.pairwise_cons.mp hes
          obtain ⟨hf, htail'⟩ := List.pairwise_cons.mp hfs
          -- Either head is no worse than the other, which its own list holds behind it.
          have hef : e.tick ≤ f.tick := by
            rcases List.mem_cons.mp ((mem_iff_of_filter_tick h f).mpr List.mem_cons_self) with
              rfl | hin
            · exact Int.le_refl _
            · exact he f hin
          have hfe : f.tick ≤ e.tick := by
            rcases List.mem_cons.mp ((mem_iff_of_filter_tick h e).mp List.mem_cons_self) with
              rfl | hin
            · exact Int.le_refl _
            · exact hf e hin
          have htick : f.tick = e.tick := Tick.ext (Int.le_antisymm hfe hef)
          have hheads := h e.tick
          rw [List.filter_cons_of_pos (by simp), List.filter_cons_of_pos (by simpa using htick)]
            at hheads
          obtain ⟨rfl, hlevel⟩ := List.cons.inj hheads
          refine congrArg (e :: ·) (ih htail htail' fun t => ?_)
          by_cases ht : e.tick = t
          · exact ht ▸ hlevel
          · have hat := h t
            rwa [List.filter_cons_of_neg (by simpa using ht),
              List.filter_cons_of_neg (by simpa using ht)] at hat

end Entry

namespace Book

variable {b : Book}

/-! ## Removal and insertion as filters -/

private theorem eraseP_id_eq_filter {es : List Entry} (id : Word) (h : (es.map Entry.id).Nodup) :
    (es.eraseP fun e => e.id = id) = es.filter fun e => e.id ≠ id := by
  induction es with
  | nil => rfl
  | cons x xs ih =>
      obtain ⟨hx, hxs⟩ := List.nodup_cons.mp h
      by_cases hid : x.id = id
      · have hrest : ∀ e ∈ xs, e.id ≠ id := fun e he heq =>
          hx (List.mem_map.mpr ⟨e, he, heq.trans hid.symm⟩)
        rw [List.eraseP_cons_of_pos (by simpa using hid),
          List.filter_cons_of_neg (by simpa using hid),
          List.filter_eq_self.mpr fun e he => by simpa using hrest e he]
      · rw [List.eraseP_cons_of_neg (by simpa using hid),
          List.filter_cons_of_pos (by simpa using hid), ih hxs]

/-- Where no identifier occurs twice, removal takes out all that has the identifier. -/
theorem entries_remove (h : b.ids.Nodup) (id : Word) :
    (b.remove id).entries = b.entries.filter fun e => e.id ≠ id :=
  eraseP_id_eq_filter id h

/-- Where no identifier occurs twice, removal does nothing but take the offer out. -/
theorem remove_eq_filter (h : b.ids.Nodup) (id : Word) :
    b.remove id = { b with entries := b.entries.filter fun e => e.id ≠ id } := by
  rw [← entries_remove h]
  rfl

/-- In order, the entries no worse than a tick stand in front of those that are. -/
theorem takeWhile_tick_eq_filter {es : List Entry} (t : Tick)
    (h : es.Pairwise fun x y => x.tick ≤ y.tick) :
    (es.takeWhile fun x => x.tick ≤ t) = es.filter (fun x => x.tick ≤ t) ∧
      (es.dropWhile fun x => x.tick ≤ t) = es.filter fun x => ¬ x.tick ≤ t := by
  induction es with
  | nil => exact ⟨rfl, rfl⟩
  | cons x xs ih =>
      obtain ⟨hx, hxs⟩ := List.pairwise_cons.mp h
      by_cases hxt : x.tick ≤ t
      · simpa [hxt] using ih hxs
      · have hrest : ∀ y ∈ xs, ¬ y.tick ≤ t := fun y hy hyt => by
          have hxy := hx y hy
          simp only [Tick.le_def] at *
          omega
        have hall : xs.filter (fun y => ¬ y.tick ≤ t) = xs :=
          List.filter_eq_self.mpr fun y hy => by simpa using hrest y hy
        have hnone : xs.filter (fun y => y.tick ≤ t) = [] :=
          List.filter_eq_nil_iff.mpr fun y hy => by simpa using hrest y hy
        simp only [List.takeWhile_cons, List.dropWhile_cons, List.filter_cons, hxt, hall, hnone]
        simp

/-- What holds between all entries, from those that are no worse to the new one and from the new
one to those that are, holds between all entries after insertion. -/
theorem pairwise_insert {R : Entry → Entry → Prop} {e : Entry} (h : b.Ordered)
    (hall : b.entries.Pairwise R) (hfront : ∀ x ∈ b.entries, x.tick ≤ e.tick → R x e)
    (hback : ∀ x ∈ b.entries, ¬ x.tick ≤ e.tick → R e x) : (b.insert e).entries.Pairwise R := by
  have htake : ∀ x ∈ b.entries.takeWhile (fun x => x.tick ≤ e.tick), R x e := by
    intro x hx
    rw [(takeWhile_tick_eq_filter e.tick h).1, List.mem_filter] at hx
    exact hfront x hx.1 (by simpa using hx.2)
  have hdrop : ∀ x ∈ b.entries.dropWhile (fun x => x.tick ≤ e.tick), R e x := by
    intro x hx
    rw [(takeWhile_tick_eq_filter e.tick h).2, List.mem_filter] at hx
    exact hback x hx.1 (by simpa using hx.2)
  rw [← List.takeWhile_append_dropWhile (p := fun x : Entry => decide (x.tick ≤ e.tick))
    (l := b.entries), List.pairwise_append] at hall
  obtain ⟨hone, htwo, hcross⟩ := hall
  refine List.pairwise_append.mpr ⟨hone, List.pairwise_cons.mpr ⟨hdrop, htwo⟩, ?_⟩
  intro x hx y hy
  rcases List.mem_cons.mp hy with rfl | hy
  · exact htake x hx
  · exact hcross x hx y hy

theorem mem_entries_remove (h : b.ids.Nodup) {id : Word} {x : Entry} :
    x ∈ (b.remove id).entries ↔ x ∈ b.entries ∧ x.id ≠ id := by
  rw [entries_remove h, List.mem_filter, decide_eq_true_iff]

theorem mem_entries_insert {e x : Entry} :
    x ∈ (b.insert e).entries ↔ x = e ∨ x ∈ b.entries := by
  rw [(perm_insert b e).mem_iff, List.mem_cons]

theorem mem_ids {id : Word} : id ∈ b.ids ↔ ∃ e ∈ b.entries, e.id = id := List.mem_map

theorem mem_ids_remove (h : b.ids.Nodup) {id other : Word} :
    other ∈ (b.remove id).ids ↔ other ∈ b.ids ∧ other ≠ id := by
  rw [mem_ids, mem_ids]
  constructor
  · rintro ⟨e, he, rfl⟩
    obtain ⟨hmem, hne⟩ := (mem_entries_remove h).mp he
    exact ⟨⟨e, hmem, rfl⟩, hne⟩
  · rintro ⟨⟨e, he, rfl⟩, hne⟩
    exact ⟨e, (mem_entries_remove h).mpr ⟨he, hne⟩, rfl⟩

/-- Removal shows exactly if the offer is in the book. -/
theorem remove_eq_self_iff (h : b.ids.Nodup) {id : Word} : b.remove id = b ↔ id ∉ b.ids := by
  constructor
  · intro heq hid
    rw [← heq, mem_ids_remove h] at hid
    exact hid.2 rfl
  · intro hid
    have hall : b.entries.filter (fun e => e.id ≠ id) = b.entries := by
      refine List.filter_eq_self.mpr fun e he => ?_
      have hne : e.id ≠ id := fun heq => hid (mem_ids.mpr ⟨e, he, heq⟩)
      simpa using hne
    rw [remove_eq_filter h, hall]

theorem mem_ids_insert {e : Entry} {id : Word} :
    id ∈ (b.insert e).ids ↔ id = e.id ∨ id ∈ b.ids := by
  have hperm := (perm_insert b e).map Entry.id
  rw [List.map_cons] at hperm
  rw [ids, hperm.mem_iff, List.mem_cons, ids]

/-- Where no identifier occurs twice, an entry is found by its own identifier. -/
theorem find?_eq_some_iff (h : b.ids.Nodup) {id : Word} {e : Entry} :
    b.find? id = some e ↔ e ∈ b.entries ∧ e.id = id := by
  constructor
  · intro hf
    exact ⟨List.mem_of_find?_eq_some hf, by simpa using List.find?_some hf⟩
  · rintro ⟨hmem, rfl⟩
    cases hf : b.find? e.id with
    | none => exact absurd (List.find?_eq_none.mp hf e hmem) (by simp)
    | some x =>
        have hid : x.id = e.id := by simpa using List.find?_some hf
        exact congrArg some (List.inj_on_of_nodup_map h (List.mem_of_find?_eq_some hf) hmem hid)

theorem find?_eq_none_iff {id : Word} : b.find? id = none ↔ id ∉ b.ids := by
  simp [find?, ids]

/-! ## Fetched books -/

/-- Row by row the entries say what the columns of the list say. The neighbours are left out:
they say nothing about the offer itself. -/
structure Lists (l : Contract.OfferList) (es : List Entry) : Prop where
  ids : es.map Entry.id = l.ids
  ticks : es.map (fun e => e.tick.val) = l.offers.map fun o => o.tick.toInt
  gives : es.map (fun e => e.offer.gives) = l.offers.map Contract.ListedOffer.gives
  details : es.map Entry.detail = l.details.map OfferDetail.ofListed

/-- A row makes an entry only of a tick in range. -/
theorem ofListed_eq_ok {id : Word} {o : Contract.ListedOffer} {d : Contract.ListedDetail}
    {e : Entry} (h : Entry.ofListed id o d = .ok e) :
    ∃ tick : Tick, tick.val = o.tick.toInt ∧
      e = ⟨id, ⟨tick, o.gives, Offer.neighbour o.prev, Offer.neighbour o.next⟩,
        OfferDetail.ofListed d⟩ := by
  unfold Entry.ofListed Offer.ofListed at h
  cases htick : Tick.ofInt? o.tick.toInt with
  | none => simp [htick, Except.map] at h
  | some tick =>
      simp only [htick, Except.map, Except.ok.injEq] at h
      exact ⟨tick, (Tick.ofInt?_eq_some_iff.mp htick).symm, h.symm⟩

theorem rows_cons {id : Word} {ids : List Word} {o : Contract.ListedOffer}
    {os : List Contract.ListedOffer} {d : Contract.ListedDetail}
    {ds : List Contract.ListedDetail} {es : List Entry}
    (h : rows (id :: ids) (o :: os) (d :: ds) = .ok es) :
    ∃ e rest, Entry.ofListed id o d = .ok e ∧ rows ids os ds = .ok rest ∧ es = e :: rest := by
  simp only [rows] at h
  cases he : Entry.ofListed id o d with
  | error fault => simp [he, Except.bind] at h
  | ok e =>
      cases hr : rows ids os ds with
      | error fault => simp [he, hr, Except.map, Except.bind] at h
      | ok rest =>
          simp only [he, hr, Except.map, Except.bind, Except.ok.injEq] at h
          exact ⟨e, rest, rfl, rfl, h.symm⟩

private theorem lists_rows {next : Word} {ids : List Word} {os : List Contract.ListedOffer}
    {ds : List Contract.ListedDetail} {es : List Entry} (h : rows ids os ds = .ok es)
    (hos : ids.length = os.length) (hds : os.length = ds.length) :
    Lists ⟨next, ids, os, ds⟩ es := by
  induction ids generalizing os ds es with
  | nil =>
      obtain rfl : [] = es := Except.ok.inj h
      obtain rfl : os = [] := List.eq_nil_of_length_eq_zero hos.symm
      obtain rfl : ds = [] := List.eq_nil_of_length_eq_zero hds.symm
      exact ⟨rfl, rfl, rfl, rfl⟩
  | cons id ids ih =>
      match os, ds with
      | o :: os, d :: ds =>
          obtain ⟨e, rest, he, hr, rfl⟩ := rows_cons h
          obtain ⟨tick, htick, rfl⟩ := ofListed_eq_ok he
          have hrest := ih hr (by simpa using hos) (by simpa using hds)
          refine ⟨?_, ?_, ?_, ?_⟩
          · rw [List.map_cons, hrest.ids]
          · rw [List.map_cons, List.map_cons, ← htick, hrest.ticks]
            rfl
          · rw [List.map_cons, List.map_cons, hrest.gives]
          · rw [List.map_cons, List.map_cons, hrest.details]

/-- A book that was made of an offer list is the rows of the list, put in order. -/
theorem of_ofOfferList {block : Nat} {l : Contract.OfferList}
    (h : ofOfferList block l = .ok b) :
    b.block = block ∧ ∃ es, b.entries = Entry.sort es ∧ Lists l es := by
  simp only [ofOfferList] at h
  split at h
  next hlen =>
    cases hr : rows l.ids l.offers l.details with
    | error fault => simp [hr, Except.map] at h
    | ok es =>
        simp only [hr, Except.map, Except.ok.injEq] at h
        subst h
        exact ⟨rfl, es, rfl, lists_rows hr hlen.1 hlen.2⟩
  next => cases h

theorem block_ofOfferList {block : Nat} {l : Contract.OfferList} (h : ofOfferList block l = .ok b) :
    b.block = block := (of_ofOfferList h).1

/-- A fetched book is in order, whatever was listed. -/
theorem ordered_ofOfferList {block : Nat} {l : Contract.OfferList}
    (h : ofOfferList block l = .ok b) : b.Ordered := by
  obtain ⟨-, es, hes, -⟩ := of_ofOfferList h
  rw [Ordered, hes]
  exact Entry.pairwise_sort es

/-- A fetched book has the identifiers that were listed. -/
theorem ids_ofOfferList_perm {block : Nat} {l : Contract.OfferList}
    (h : ofOfferList block l = .ok b) : b.ids.Perm l.ids := by
  obtain ⟨-, es, hes, hlists⟩ := of_ofOfferList h
  have hperm := (Entry.perm_sort es).map Entry.id
  rw [← hes, hlists.ids] at hperm
  exact hperm

/-! ## Events keep a book consistent -/

theorem nodup_remove (h : b.ids.Nodup) (id : Word) : (b.remove id).ids.Nodup :=
  h.sublist (List.eraseP_sublist.map Entry.id)

theorem consistent_remove (h : b.Consistent) (id : Word) : (b.remove id).Consistent :=
  ⟨ordered_remove h.1 id, nodup_remove h.2 id⟩

theorem nodup_insert {e : Entry} (h : b.ids.Nodup) (he : e.id ∉ b.ids) : (b.insert e).ids.Nodup :=
  ((perm_insert b e).map Entry.id).nodup_iff.mpr (List.nodup_cons.mpr ⟨he, h⟩)

variable {maker : Address} {tick : Tick} {gives : Word} {gasreq gasprice : UInt64}

theorem ordered_write (h : b.Ordered) (id : Word) :
    (b.write id maker tick gives gasreq gasprice).Ordered :=
  ordered_insert (ordered_remove h id) _

theorem consistent_write (h : b.Consistent) (id : Word) :
    (b.write id maker tick gives gasreq gasprice).Consistent :=
  ⟨ordered_write h.1 id, nodup_insert (nodup_remove h.2 id) fun hid =>
    ((mem_ids_remove h.2).mp hid).2 rfl⟩

end Book

namespace BookState

/-- Every event keeps a book in order. -/
theorem ordered_apply {s : BookState} (h : s.book.Ordered) (e : BookEvent) :
    (s.apply e).value.book.Ordered :=
  book_apply_induction e h (fun id _ _ _ _ _ => Book.ordered_write h id) (Book.ordered_remove h)

/-- Every event keeps a book consistent. -/
theorem consistent_apply {s : BookState} (h : s.book.Consistent) (e : BookEvent) :
    (s.apply e).value.book.Consistent :=
  book_apply_induction e h (fun id _ _ _ _ _ => Book.consistent_write h id)
    (Book.consistent_remove h)

/-- Every sequence of events keeps a book consistent. -/
theorem consistent_applyAll {s : BookState} (h : s.book.Consistent) (events : List BookEvent) :
    (s.applyAll events).book.Consistent := by
  induction events generalizing s with
  | nil => exact h
  | cons e rest ih => exact ih (consistent_apply h e)

end BookState

end OfferBook
