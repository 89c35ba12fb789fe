import OfferBook.History

/-!
# What a history retains

Every history that is only ever stored into is well formed: its blocks descend strictly and its
capacity holds. Storing restores the first by what it forgets (`History.insert` drops the
snapshots of the new block and of later ones before it puts the new one in front) and the second
by cutting the end off, so neither needs anything of the snapshot that is stored.

On a well-formed history the search from the front finds the latest snapshot at or before a
block. It finds one for exactly the blocks from the oldest retained one on.

## Main results

* `wf_insert`: storing any snapshot leaves a well-formed history.
* `insert_self`: storing the latest snapshot once more changes nothing.
* `atOrBefore?_spec`: the snapshot that is found is the latest at or before the block.
* `atOrBefore?_eq_none`, `exists_atOrBefore?`: which blocks are answered for.
-/

namespace OfferBook.History

variable {h : History}

/-- The blocks descend strictly, and no more snapshots are held than may be. -/
structure Wf (h : History) : Prop where
  descending : h.snapshots.Pairwise fun a b => b.block < a.block
  fits : h.snapshots.length ≤ h.capacity

theorem wf_new (capacity : Nat) : (new capacity).Wf := ⟨.nil, Nat.zero_le _⟩

theorem wf_clear (h : History) : h.clear.Wf := ⟨.nil, Nat.zero_le _⟩

/-! ## Storing -/

/-- Behind the snapshots that a block supersedes exactly the earlier ones are left. -/
theorem mem_dropWhile_iff {n : Nat} {ts : List Book}
    (hts : ts.Pairwise fun a b => b.block < a.block) {t : Book} :
    (t ∈ ts.dropWhile fun t => n ≤ t.block) ↔ t ∈ ts ∧ t.block < n := by
  induction ts with
  | nil => simp
  | cons x xs ih =>
      obtain ⟨hx, hxs⟩ := List.pairwise_cons.mp hts
      by_cases hn : n ≤ x.block
      · rw [List.dropWhile_cons_of_pos (by simpa using hn), ih hxs, List.mem_cons]
        refine ⟨fun ⟨ht, hlt⟩ => ⟨.inr ht, hlt⟩, fun ⟨ht, hlt⟩ => ⟨?_, hlt⟩⟩
        rcases ht with rfl | ht
        · omega
        · exact ht
      · rw [List.dropWhile_cons_of_neg (by simpa using hn)]
        refine ⟨fun ht => ⟨ht, ?_⟩, And.left⟩
        rcases List.mem_cons.mp ht with rfl | ht
        · omega
        · have := hx t ht
          omega

theorem block_lt_of_mem_dropWhile {n : Nat} {ts : List Book}
    (hts : ts.Pairwise fun a b => b.block < a.block) {t : Book}
    (ht : t ∈ ts.dropWhile fun t => n ≤ t.block) : t.block < n :=
  ((mem_dropWhile_iff hts).mp ht).2

theorem wf_insert (hw : h.Wf) (s : Book) : (h.insert s).Wf where
  descending := by
    have hrest : (h.snapshots.dropWhile fun t => s.block ≤ t.block).Pairwise
        fun a b => b.block < a.block := hw.descending.sublist (List.dropWhile_sublist _)
    have hcons : (s :: h.snapshots.dropWhile fun t => s.block ≤ t.block).Pairwise
        fun a b => b.block < a.block := List.pairwise_cons.mpr
      ⟨fun t ht => block_lt_of_mem_dropWhile hw.descending ht, hrest⟩
    exact hcons.sublist (List.take_sublist _ _)
  fits := length_insert_le h s

/-- What is retained after storing was retained before or is what was stored. -/
theorem mem_snapshots_insert {s t : Book} (ht : t ∈ (h.insert s).snapshots) :
    t = s ∨ t ∈ h.snapshots := by
  rcases List.mem_cons.mp (List.mem_of_mem_take ht) with rfl | ht
  · exact .inl rfl
  · exact .inr ((List.dropWhile_sublist _).mem ht)

/-- Storing into a history without snapshots leaves the one that was stored. -/
theorem snapshots_insert_clear (h : History) (s : Book) :
    (h.clear.insert s).snapshots = [s] := by
  have := h.one_le_capacity
  obtain ⟨n, hn⟩ : ∃ n, h.capacity = n + 1 := ⟨h.capacity - 1, by omega⟩
  simp [insert, clear, hn]

/-- Storing the latest snapshot once more changes nothing. -/
theorem insert_self (hw : h.Wf) {s : Book} (hs : h.latest? = some s) : h.insert s = h := by
  obtain ⟨capacity, hone, snapshots⟩ := h
  obtain ⟨rest, rfl⟩ : ∃ rest, snapshots = s :: rest := List.head?_eq_some_iff.mp hs
  have hrest : (rest.dropWhile fun t => s.block ≤ t.block) = rest := by
    cases rest with
    | nil => rfl
    | cons x xs =>
        have hx := (List.pairwise_cons.mp hw.descending).1 x List.mem_cons_self
        exact List.dropWhile_cons_of_neg (by simpa using hx)
  have hfits : (s :: rest).take capacity = s :: rest := List.take_of_length_le hw.fits
  simp [insert, hrest, hfits]

/-! ## Looking back -/

/-- No snapshot is of a later block than the latest. -/
theorem block_le_latest (hw : h.Wf) {latest : Book} (hl : h.latest? = some latest) :
    ∀ t ∈ h.snapshots, t.block ≤ latest.block := by
  obtain ⟨rest, hrest⟩ := List.head?_eq_some_iff.mp hl
  intro t ht
  have hdesc := hw.descending
  rw [hrest] at ht hdesc
  rcases List.mem_cons.mp ht with rfl | ht
  · exact Nat.le_refl _
  · exact Nat.le_of_lt ((List.pairwise_cons.mp hdesc).1 t ht)

/-- The snapshot found for a block is retained, is not later than the block, and is the latest
such. -/
theorem atOrBefore?_spec (hw : h.Wf) {n : Nat} {t : Book} (ht : h.atOrBefore? n = some t) :
    t ∈ h.snapshots ∧ t.block ≤ n ∧ ∀ s ∈ h.snapshots, s.block ≤ n → s.block ≤ t.block := by
  obtain ⟨hle, front, back, hsplit, hfront⟩ := List.find?_eq_some_iff_append.mp ht
  refine ⟨List.mem_of_find?_eq_some ht, by simpa using hle, fun s hs hsn => ?_⟩
  have hdesc := hw.descending
  rw [hsplit] at hs hdesc
  rcases List.mem_append.mp hs with hs | hs
  · have := hfront s hs
    simp at this
    omega
  · rcases List.mem_cons.mp hs with rfl | hs
    · exact Nat.le_refl _
    · have := (List.pairwise_cons.mp (List.pairwise_append.mp hdesc).2.1).1 s hs
      omega

/-- The oldest block is the least of those retained, and is one of them. -/
theorem oldestBlock?_spec (hw : h.Wf) {o : Nat} (ho : h.oldestBlock? = some o) :
    (∃ s ∈ h.snapshots, s.block = o) ∧ ∀ s ∈ h.snapshots, o ≤ s.block := by
  obtain ⟨s, hs, rfl⟩ := Option.map_eq_some_iff.mp ho
  obtain ⟨front, hsplit⟩ := List.getLast?_eq_some_iff.mp hs
  have hdesc := hw.descending
  rw [hsplit] at hdesc ⊢
  refine ⟨⟨s, by simp, rfl⟩, fun t ht => ?_⟩
  rcases List.mem_append.mp ht with ht | ht
  · have := (List.pairwise_append.mp hdesc).2.2 t ht s (by simp)
    omega
  · obtain rfl : t = s := by simpa using ht
    exact Nat.le_refl _

/-- Before the oldest block nothing is known. -/
theorem atOrBefore?_eq_none (hw : h.Wf) {o n : Nat} (ho : h.oldestBlock? = some o) (hn : n < o) :
    h.atOrBefore? n = none := by
  refine List.find?_eq_none.mpr fun s hs => ?_
  have := (oldestBlock?_spec hw ho).2 s hs
  simp
  omega

/-- From the oldest block on there is an answer for every block. -/
theorem exists_atOrBefore? (hw : h.Wf) {o n : Nat} (ho : h.oldestBlock? = some o) (hn : o ≤ n) :
    ∃ t, h.atOrBefore? n = some t := by
  obtain ⟨⟨s, hs, rfl⟩, -⟩ := oldestBlock?_spec hw ho
  cases ht : h.atOrBefore? n with
  | some t => exact ⟨t, rfl⟩
  | none => exact absurd (List.find?_eq_none.mp ht s hs) (by simpa using hn)

end OfferBook.History
