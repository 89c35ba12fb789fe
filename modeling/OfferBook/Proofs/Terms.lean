import Mathlib.Data.List.Basic
import OfferBook.Proofs.Consistency

/-!
# Books on the same terms

A fetched offer knows its neighbours on the page it came from, a written one knows none, and the
hint at a next offer is the reader contract's own. Nothing that events do looks at either, nor at
the block a book is the state of. `SameTerms` relates two books that agree in all the rest: the
offers in their order, each with its price, volume and execution details.

An entry without its neighbours is `Entry.unlinked`, and the elementary changes of a book can be
made on the unlinked entries alone (`terms_remove`, `terms_insert`). So they keep two books on the
same terms, and every event does.

## Main results

* `sameTerms_iff`: two books are on the same terms if their unlinked entries are the same.
* `sameTerms_apply`: every event keeps two books on the same terms.
* `sameTerms_of_lists`: a book in order is on the same terms as any book fetched from its listing.
-/

namespace OfferBook

/-- The entry as if its neighbours were unknown. -/
def Entry.unlinked (e : Entry) : Entry :=
  { e with offer := { e.offer with prev := none, next := none } }

/-- The two books hold the same offers in the same order, each at its price and volume and with
its details. -/
structure SameTerms (b b' : Book) : Prop where
  ids : b.ids = b'.ids
  ticks : b.offers.map Offer.tick = b'.offers.map Offer.tick
  gives : b.offers.map Offer.gives = b'.offers.map Offer.gives
  details : b.details = b'.details

namespace Book

variable {b b' : Book}

/-- What a book says without the neighbours. -/
def terms (b : Book) : List Entry := b.entries.map Entry.unlinked

private theorem map_unlinked_eq_iff {es fs : List Entry} :
    es.map Entry.unlinked = fs.map Entry.unlinked ↔
      es.map Entry.id = fs.map Entry.id ∧
        (es.map Entry.offer).map Offer.tick = (fs.map Entry.offer).map Offer.tick ∧
        (es.map Entry.offer).map Offer.gives = (fs.map Entry.offer).map Offer.gives ∧
        es.map Entry.detail = fs.map Entry.detail := by
  induction es generalizing fs with
  | nil => cases fs <;> simp
  | cons e es ih =>
      cases fs with
      | nil => simp
      | cons f fs =>
          simp only [List.map_cons, List.cons.injEq, ih, Entry.unlinked, Entry.mk.injEq,
            Offer.mk.injEq]
          grind

/-- Two books are on the same terms if they are the same apart from neighbours, hint and block. -/
theorem sameTerms_iff : SameTerms b b' ↔ b.terms = b'.terms := by
  unfold terms
  rw [map_unlinked_eq_iff]
  constructor
  · intro h
    exact ⟨h.ids, h.ticks, h.gives, h.details⟩
  · rintro ⟨hids, hticks, hgives, hdetails⟩
    exact ⟨hids, hticks, hgives, hdetails⟩

/-! ## Changes to the terms -/

theorem terms_remove (b : Book) (id : Word) :
    (b.remove id).terms = b.terms.eraseP fun e => e.id = id := by
  rw [terms, terms, List.eraseP_map]
  rfl

theorem terms_insert (b : Book) (e : Entry) :
    (b.insert e).terms = b.terms.takeWhile (fun x => x.tick ≤ e.tick) ++
      e.unlinked :: b.terms.dropWhile fun x => x.tick ≤ e.tick := by
  rw [terms, terms, List.takeWhile_map, List.dropWhile_map, insert, List.map_append,
    List.map_cons]
  rfl

/-- The gas base that a write takes over is one of the terms. -/
theorem kiloGasbase_find? (b : Book) (id : Word) :
    ((b.find? id).map fun e => e.detail.kiloGasbase) =
      (b.terms.find? fun e => e.id = id).map fun e => e.detail.kiloGasbase := by
  rw [terms, List.find?_map, Option.map_map]
  rfl

end Book

open Book

variable {b b' : Book}

theorem SameTerms.atBlock (h : SameTerms b b') (block : Nat) :
    SameTerms (b.atBlock block) (b'.atBlock block) :=
  ⟨h.ids, h.ticks, h.gives, h.details⟩

theorem sameTerms_remove (h : SameTerms b b') (id : Word) :
    SameTerms (b.remove id) (b'.remove id) := by
  rw [sameTerms_iff] at *
  rw [terms_remove, terms_remove, h]

theorem sameTerms_write (h : SameTerms b b') (id : Word) (maker : Address) (tick : Tick)
    (gives : Word) (gasreq gasprice : UInt64) :
    SameTerms (b.write id maker tick gives gasreq gasprice)
      (b'.write id maker tick gives gasreq gasprice) := by
  rw [sameTerms_iff] at *
  unfold Book.write
  rw [kiloGasbase_find?, kiloGasbase_find?, terms_insert, terms_insert, terms_remove, terms_remove,
    h]

/-- Every event keeps two books on the same terms, beside the same nesting. -/
theorem sameTerms_apply (h : SameTerms b b') (n : Nesting) (e : BookEvent) :
    SameTerms (BookState.apply ⟨b, n⟩ e).value.book (BookState.apply ⟨b', n⟩ e).value.book := by
  cases hw : e.written? with
  | some id =>
      obtain ⟨maker, tick, gives, gasreq, gasprice, rfl⟩ :=
        BookEvent.eq_offerWrite_of_written? hw
      rw [BookState.book_apply_write, BookState.book_apply_write]
      exact sameTerms_write h id maker tick gives gasreq gasprice
  | none =>
      cases hr : n.removed? e with
      | some id =>
          rw [BookState.book_apply_removed (s := ⟨b, n⟩) hr,
            BookState.book_apply_removed (s := ⟨b', n⟩) hr]
          exact sameTerms_remove h id
      | none =>
          rw [BookState.book_apply_other (s := ⟨b, n⟩) hw hr,
            BookState.book_apply_other (s := ⟨b', n⟩) hw hr]
          exact h

/-! ## Listings -/

/-- Entries in order are not sorted again. -/
theorem sort_eq_self {es : List Entry} (h : es.Pairwise fun x y => x.tick ≤ y.tick) :
    Entry.sort es = es := by
  unfold Entry.sort
  split
  · rfl
  · exact List.mergeSort_of_pairwise (h.imp fun hxy => by simpa [Entry.le] using hxy)

/-- A book in order is on the same terms as any book fetched from its listing. -/
theorem sameTerms_of_lists {block : Nat} {l : Contract.OfferList} (h : ofOfferList block l = .ok b')
    (hordered : b.Ordered) (hlists : Lists l b.entries) : SameTerms b b' := by
  obtain ⟨-, es, hes, hrows⟩ := of_ofOfferList h
  have hticks : b.entries.map Entry.tick = es.map Entry.tick := by
    have hvals : (b.entries.map Entry.tick).map Tick.val = (es.map Entry.tick).map Tick.val := by
      rw [List.map_map, List.map_map]
      exact hlists.ticks.trans hrows.ticks.symm
    exact List.map_injective_iff.mpr (fun _ _ => Tick.ext) hvals
  have hsorted : es.Pairwise fun x y => x.tick ≤ y.tick := by
    have hmap : (b.entries.map Entry.tick).Pairwise (· ≤ ·) := List.pairwise_map.mpr hordered
    rw [hticks] at hmap
    exact List.pairwise_map.mp hmap
  rw [sort_eq_self hsorted] at hes
  refine ⟨?_, ?_, ?_, ?_⟩
  · rw [ids, ids, hes, hlists.ids, hrows.ids]
  · rw [offers, offers, hes, List.map_map, List.map_map]
    exact hticks
  · rw [offers, offers, hes, List.map_map, List.map_map]
    exact hlists.gives.trans hrows.gives.symm
  · rw [details, details, hes, hlists.details, hrows.details]

end OfferBook
