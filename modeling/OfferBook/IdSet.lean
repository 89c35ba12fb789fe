import OfferBook.Word

/-!
# Sets of offer identifiers

A set of identifiers is its ascending list, so two sets with the same members are equal and a
listing of a set is the set itself. Insertion and removal keep the list ascending by walking it.

Main results:

* `mem_insert`, `mem_erase`: membership after either operation;
* `ext`: sets with the same members are equal.
-/

namespace OfferBook

/-- A finite set of offer identifiers, listed in ascending order. -/
structure IdSet where
  ids : List Word
  ascending : ids.Pairwise (· < ·)
  deriving DecidableEq

namespace IdSet

instance : Membership Word IdSet := ⟨fun s x => x ∈ s.ids⟩

instance (s : IdSet) (x : Word) : Decidable (x ∈ s) := inferInstanceAs (Decidable (x ∈ s.ids))

theorem mem_def {s : IdSet} {x : Word} : x ∈ s ↔ x ∈ s.ids := Iff.rfl

/-- The set without members. -/
def empty : IdSet := ⟨[], .nil⟩

instance : Inhabited IdSet := ⟨empty⟩

@[simp] theorem not_mem_empty (x : Word) : x ∉ empty := by simp [mem_def, empty]

/-- The identifier put at its place in an ascending list, unless it is there. -/
def place (x : Word) : List Word → List Word
  | [] => [x]
  | y :: ys => if x < y then x :: y :: ys else if x = y then y :: ys else y :: place x ys

theorem mem_place {x z : Word} {ys : List Word} : z ∈ place x ys ↔ z = x ∨ z ∈ ys := by
  induction ys with
  | nil => simp [place]
  | cons y ys ih =>
    simp only [place]
    split
    · simp
    · split
      · rename_i h; subst h; simp
      · simp [ih]; grind

theorem pairwise_place {x : Word} {ys : List Word} (h : ys.Pairwise (· < ·)) :
    (place x ys).Pairwise (· < ·) := by
  induction ys with
  | nil => simp [place]
  | cons y ys ih =>
    obtain ⟨hy, hys⟩ := List.pairwise_cons.mp h
    simp only [place]
    split
    · rename_i hxy
      refine List.pairwise_cons.mpr ⟨?_, h⟩
      intro z hz
      rcases List.mem_cons.mp hz with rfl | hz
      · exact hxy
      · exact BitVec.lt_trans hxy (hy z hz)
    · split
      · exact h
      · rename_i hxy hne
        refine List.pairwise_cons.mpr ⟨?_, ih hys⟩
        intro z hz
        rcases mem_place.mp hz with rfl | hz
        · exact BitVec.lt_of_le_ne (BitVec.not_lt.mp hxy) (Ne.symm hne)
        · exact hy z hz

/-- The set with one more member. -/
def insert (s : IdSet) (x : Word) : IdSet := ⟨place x s.ids, pairwise_place s.ascending⟩

theorem mem_insert {s : IdSet} {x z : Word} : z ∈ s.insert x ↔ z = x ∨ z ∈ s := mem_place

/-- The set without a member. -/
def erase (s : IdSet) (x : Word) : IdSet := ⟨s.ids.filter (· ≠ x), s.ascending.filter _⟩

theorem mem_erase {s : IdSet} {x z : Word} : z ∈ s.erase x ↔ z ≠ x ∧ z ∈ s := by
  simp [mem_def, erase, and_comm]

theorem ext {s t : IdSet} (h : ∀ x, x ∈ s ↔ x ∈ t) : s = t := by
  have : s.ids = t.ids := by
    refine List.Perm.eq_of_pairwise ?_ s.ascending t.ascending ?_
    · intro a b _ _ hab hba
      exact absurd (BitVec.lt_trans hab hba) (BitVec.lt_irrefl a)
    · refine (List.perm_ext_iff_of_nodup ?_ ?_).mpr h
      · exact s.ascending.imp fun hab => BitVec.ne_of_lt hab
      · exact t.ascending.imp fun hab => BitVec.ne_of_lt hab
  cases s; cases t; simp_all

end IdSet

end OfferBook
