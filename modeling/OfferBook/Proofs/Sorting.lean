/-!
# Stable sorting

Sorting is stable if elements that the order does not tell apart stand as they stood before. For a
class of elements that may all stand before each other this is an equation: what is in the class
is, in order, what was in the class before.

## Main results

* `filter_mergeSort_of_tied`: sorting leaves the elements of a class as they stand.
-/

namespace OfferBook

variable {α : Type} {le : α → α → Bool} {p : α → Bool}

/-- The elements of a class are in order as they stand, so sorting all elements leaves them so. -/
theorem filter_mergeSort_of_tied (trans : ∀ a b c, le a b = true → le b c = true → le a c = true)
    (total : ∀ a b, (le a b || le b a) = true)
    (tied : ∀ a b, p a = true → p b = true → le a b = true) (xs : List α) :
    (xs.mergeSort le).filter p = xs.filter p := by
  have hordered : (xs.filter p).Pairwise fun a b => le a b = true := by
    refine List.pairwise_iff_forall_sublist.mpr fun {a b} hpair => ?_
    have ha := (List.mem_filter.mp (hpair.subset List.mem_cons_self)).2
    have hb := (List.mem_filter.mp (hpair.subset (List.mem_cons_of_mem _ List.mem_cons_self))).2
    exact tied a b ha hb
  have hkept : (xs.filter p).Sublist (xs.mergeSort le) :=
    List.sublist_mergeSort trans total hordered List.filter_sublist
  have hsub : (xs.filter p).Sublist ((xs.mergeSort le).filter p) := by
    simpa using hkept.filter p
  have hlength := ((List.mergeSort_perm xs le).filter p).length_eq
  exact (hsub.eq_of_length hlength.symm).symm

end OfferBook
