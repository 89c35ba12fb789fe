import Mathlib.Data.List.Forall2
import OfferBook.Proofs.Fetching
import OfferBook.Proofs.Terms

/-!
# The book of an offer list

The columns of an offer list are read row by row, and the rows are put in order of their ticks. A
list whose rows are in order already is not sorted again: only neighbouring rows are compared to
find that out. `sort_eq_mergeSort` says that this makes no difference, so the book is what one
stable sort of the rows makes of them. Stability is stated tick by tick (`StablySorted`), and that
pins the order down: no other arrangement of the rows is sorted and keeps equal ticks as they were.

A row stays together. `Entry.OfRow` is what an entry says of the row it was made of, and the sort
moves entries.

## Main results

* `sort_eq_mergeSort`: whether the rows are looked at before they are sorted makes no difference.
* `StablySorted.unique`: there is one stable sort.
* `ofOfferList_stable`: the book of an offer list, and which lists make none.
-/

namespace OfferBook

/-- The rows of an offer list: every identifier with the offer and the details in its place. -/
def Contract.OfferList.rows (l : Contract.OfferList) :
    List (Word × Contract.ListedOffer × Contract.ListedDetail) :=
  l.ids.zip (l.offers.zip l.details)

namespace Entry

/-- The entry says what the row says. A neighbour zero is none, and gas amounts end at 64 bits. -/
structure OfRow (row : Word × Contract.ListedOffer × Contract.ListedDetail) (e : Entry) :
    Prop where
  id : e.id = row.1
  tick : e.tick.val = row.2.1.tick.toInt
  gives : e.offer.gives = row.2.1.gives
  prev : e.offer.prev = if row.2.1.prev = 0 then none else some row.2.1.prev
  next : e.offer.next = if row.2.1.next = 0 then none else some row.2.1.next
  maker : e.detail.maker = row.2.2.maker
  gasreq : e.detail.gasreq.toNat = min row.2.2.gasreq.toNat Word.max64
  kiloGasbase : e.detail.kiloGasbase.toNat = min row.2.2.kiloGasbase.toNat Word.max64
  gasprice : e.detail.gasprice.toNat = min row.2.2.gasprice.toNat Word.max64

theorem ofRow_of_ofListed {id : Word} {o : Contract.ListedOffer} {d : Contract.ListedDetail}
    {e : Entry} (h : Entry.ofListed id o d = .ok e) : OfRow (id, o, d) e := by
  obtain ⟨tick, htick, rfl⟩ := Book.ofListed_eq_ok h
  exact
    { id := rfl
      tick := htick
      gives := rfl
      prev := rfl
      next := rfl
      maker := rfl
      gasreq := Word.toNat_clamp64 d.gasreq
      kiloGasbase := Word.toNat_clamp64 d.kiloGasbase
      gasprice := Word.toNat_clamp64 d.gasprice }

/-! ## The stable sort -/

/-- Sorting only where the entries are out of order is sorting. -/
theorem sort_eq_mergeSort (es : List Entry) : sort es = es.mergeSort le := by
  unfold sort
  split
  next hinOrder =>
    have hsorted : es.Pairwise fun x y => le x y = true := by
      simpa [le] using pairwise_of_inOrder hinOrder
    exact (List.mergeSort_of_pairwise hsorted).symm
  next => rfl

/-- Two stable sorts of a list are the same. -/
theorem StablySorted.unique {listed es fs : List Entry} (hes : StablySorted listed es)
    (hfs : StablySorted listed fs) : es = fs :=
  eq_of_filter_tick hes.ordered hfs.ordered fun t => (hes.ties t).trans (hfs.ties t).symm

end Entry

namespace Book

variable {block : Nat} {l : Contract.OfferList} {ids : List Word} {os : List Contract.ListedOffer}
  {ds : List Contract.ListedDetail} {es : List Entry}

/-- The entries that columns make are those of their rows. -/
theorem forall₂_ofRow_rows (hids : ids.length = os.length) (hds : os.length = ds.length)
    (h : rows ids os ds = .ok es) : List.Forall₂ Entry.OfRow (ids.zip (os.zip ds)) es := by
  induction ids generalizing os ds es with
  | nil =>
      obtain rfl : [] = es := Except.ok.inj h
      exact .nil
  | cons id ids ih =>
      match os, ds with
      | o :: os, d :: ds =>
          obtain ⟨e, rest, he, hrest, rfl⟩ := rows_cons h
          exact .cons (Entry.ofRow_of_ofListed he)
            (ih (Nat.succ.inj hids) (Nat.succ.inj hds) hrest)

/-- A list makes no book exactly if its columns do not agree in length or a tick is out of
range. -/
theorem ofOfferList_eq_error_iff :
    (∃ fault, ofOfferList block l = .error fault) ↔
      ¬ l.Aligned ∨ ∃ o ∈ l.offers, Tick.Outside o.tick.toInt := by
  by_cases halign : l.Aligned
  · rcases firstOutside_or_inRange l.offers with ⟨front, o, back, hoffers, hfront, hout⟩ | hticks
    · have ho : o ∈ l.offers := by simp [hoffers]
      exact iff_of_true ⟨_, ofOfferList_of_outside halign hoffers hfront hout⟩
        (.inr ⟨o, ho, hout⟩)
    · obtain ⟨b, hb⟩ : ∃ b, ofOfferList block l = .ok b := ofOfferList_of_inRange halign hticks
      refine iff_of_false ?_ ?_
      · rintro ⟨fault, hfault⟩
        cases hfault.symm.trans hb
      · rintro (hnot | ⟨o, ho, hout⟩)
        · exact hnot halign
        · exact hticks o ho hout
  · exact iff_of_true ⟨_, ofOfferList_of_misaligned halign⟩ (.inl halign)

/-- **The book of an offer list is one stable sort of its rows.** If the columns of a list agree in
length and its ticks are in range, the list makes a book, as of the block asked for and with the
hint of the list. The entries are those of the rows, every identifier with its own offer and
details, put in order of their ticks and equal ticks as they were listed: the result of sorting
the rows whether or not they are in order, and the only arrangement of the rows like that. Rows
that are in order stay as they are. In every other case there is no book but a fault. -/
theorem ofOfferList_stable (block : Nat) (l : Contract.OfferList) :
    (l.Aligned → (∀ o ∈ l.offers, ¬ Tick.Outside o.tick.toInt) →
      ∃ b listed, ofOfferList block l = .ok b ∧ b.block = block ∧ b.nextOffer = l.nextOffer ∧
        List.Forall₂ Entry.OfRow l.rows listed ∧
        Entry.StablySorted listed b.entries ∧ b.entries = listed.mergeSort Entry.le ∧
        (∀ es, Entry.StablySorted listed es → es = b.entries) ∧
        (listed.Pairwise (fun x y => x.tick ≤ y.tick) → b.entries = listed)) ∧
      ((∃ fault, ofOfferList block l = .error fault) ↔
        ¬ l.Aligned ∨ ∃ o ∈ l.offers, Tick.Outside o.tick.toInt) := by
  refine ⟨fun halign hticks => ?_, ofOfferList_eq_error_iff⟩
  obtain ⟨listed, hrows⟩ := rows_of_inRange l.ids l.details hticks
  have hbook : ofOfferList block l = .ok ⟨block, l.nextOffer, Entry.sort listed⟩ := by
    rw [ofOfferList_of_aligned halign, hrows]
    rfl
  have hstable : Entry.StablySorted listed (Entry.sort listed) := Entry.stablySorted_sort listed
  exact ⟨_, listed, hbook, rfl, rfl, forall₂_ofRow_rows halign.1 halign.2 hrows, hstable,
    Entry.sort_eq_mergeSort listed, fun es hes => hes.unique hstable, sort_eq_self⟩

/-- Four rows out of order, at two ticks, the last one with more gas than 64 bits can say; and the
same list with a tick that is none. -/
theorem ofOfferList_stable_tied_rows :
    let l : Contract.OfferList :=
      ⟨7, [9, 4, 6, 5], [⟨0, 4, 3, 10⟩, ⟨9, 6, 2, 20⟩, ⟨4, 5, 3, 30⟩, ⟨6, 0, 2, 40⟩],
        [⟨0xa1, 1, 11, 21⟩, ⟨0xa2, 2, 12, 22⟩, ⟨0xa3, 3, 13, 23⟩,
          ⟨0xa4, 0x10000000000000000, 14, 24⟩]⟩
    let outside : Contract.OfferList :=
      { l with offers := [⟨0, 4, 3, 10⟩, ⟨9, 6, 0x80000000, 20⟩, ⟨4, 5, 3, 30⟩, ⟨6, 0, 2, 40⟩] }
    l.Aligned ∧ (∀ o ∈ l.offers, ¬ Tick.Outside o.tick.toInt) ∧
      (∃ b listed, ofOfferList 150 l = .ok b ∧ b.ids = [4, 5, 9, 6] ∧
        List.Forall₂ Entry.OfRow l.rows listed ∧ Entry.StablySorted listed b.entries) ∧
      ∃ fault, ofOfferList 150 outside = .error fault := by
  intro l outside
  have halign : l.Aligned := ⟨rfl, rfl⟩
  have hticks : ∀ o ∈ l.offers, ¬ Tick.Outside o.tick.toInt := by decide
  have hout : ∃ o ∈ outside.offers, Tick.Outside o.tick.toInt := by decide
  obtain ⟨b, listed, hb, -, -, hrows, hstable, -⟩ := (ofOfferList_stable 150 l).1 halign hticks
  refine ⟨halign, hticks, ⟨b, listed, hb, ?_, hrows, hstable⟩,
    (ofOfferList_stable 150 outside).2.mpr (.inr hout)⟩
  have hids : (ofOfferList 150 l).map ids = .ok [4, 5, 9, 6] := by
    simp [l, ofOfferList, rows, Entry.ofListed, Offer.ofListed, Tick.ofInt?, Except.map,
      Except.bind, ids, Entry.sort, Entry.inOrder, Entry.le, Entry.tick, Tick.le_def,
      List.mergeSort, List.MergeSort.Internal.splitInTwo]
  rw [hb] at hids
  exact Except.ok.inj hids

end Book

end OfferBook
