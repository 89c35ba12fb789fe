import Mathlib.Data.List.Induction
import OfferBook.Proofs.Retention

/-!
# Which snapshots a history answers from

Storing a snapshot supersedes those of its own block and of later ones, and clearing drops all. A
snapshot is live while neither has happened to it since it was stored; this is a matter of the
operations alone, whatever the capacity. A history retains the newest of the live snapshots. The
others were evicted: they are still live, and all of them are older than every retained one, also
after a correction has made room again. So a question is either answered from the latest live
snapshot that could answer it or not at all.

## Main results

* `live_concat_insert`, `not_live_concat_clear`: what one more operation leaves live.
* `keepsNewest_insert`, `keepsNewest_run`: what is retained is live, and what is live but not
  retained is older.
* `answers_from_live`: the snapshots retained, and the answers given, by a history of any capacity
  after any operations.
-/

namespace OfferBook.History

/-- What is done to a history. -/
inductive Operation where
  | insert (s : Book)
  | clear
  deriving DecidableEq

/-- The history after an operation. -/
def perform (h : History) : Operation → History
  | .insert s => h.insert s
  | .clear => h.clear

/-- A new history after some operations on it. -/
def run (capacity : Nat) (operations : List Operation) : History :=
  operations.foldl perform (new capacity)

/-- Whether an operation leaves a snapshot alone: it stores one of a later block. -/
def Operation.Spares (s : Book) : Operation → Prop
  | .insert t => s.block < t.block
  | .clear => False

/-- The snapshot was stored, and every later operation has spared it. -/
def Live (operations : List Operation) (s : Book) : Prop :=
  ∃ earlier later, operations = earlier ++ .insert s :: later ∧ ∀ op ∈ later, op.Spares s

variable {operations : List Operation} {s t : Book} {h : History}

theorem run_concat (capacity : Nat) (operations : List Operation) (op : Operation) :
    run capacity (operations ++ [op]) = (run capacity operations).perform op := by
  rw [run, List.foldl_append]
  rfl

/-! ## What one more operation leaves live -/

theorem not_live_nil (s : Book) : ¬ Live [] s := by
  rintro ⟨earlier, later, hsplit, -⟩
  simp at hsplit

/-- A snapshot is live after one more operation if that has stored it, or it was live before and
the operation spares it. -/
theorem live_concat {op : Operation} :
    Live (operations ++ [op]) s ↔ op = .insert s ∨ (Live operations s ∧ op.Spares s) := by
  constructor
  · rintro ⟨earlier, later, hsplit, hlater⟩
    cases later using List.reverseRecOn with
    | nil => exact .inl (List.singleton_inj.mp (List.append_inj_right' hsplit rfl))
    | append_singleton later last =>
        rw [← List.cons_append, ← List.append_assoc] at hsplit
        obtain ⟨hoperations, hlast⟩ := List.append_inj' hsplit rfl
        obtain rfl : op = last := List.singleton_inj.mp hlast
        exact .inr ⟨⟨earlier, later, hoperations, fun o ho => hlater o (by simp [ho])⟩,
          hlater op (by simp)⟩
  · rintro (rfl | ⟨⟨earlier, later, rfl, hlater⟩, hop⟩)
    · exact ⟨operations, [], rfl, by simp⟩
    · refine ⟨earlier, later ++ [op], by simp, fun o ho => ?_⟩
      rcases List.mem_append.mp ho with ho | ho
      · exact hlater o ho
      · obtain rfl := List.mem_singleton.mp ho
        exact hop

theorem live_concat_insert :
    Live (operations ++ [.insert t]) s ↔ s = t ∨ (Live operations s ∧ s.block < t.block) := by
  rw [live_concat, Operation.insert.injEq, eq_comm]
  rfl

theorem not_live_concat_clear : ¬ Live (operations ++ [.clear]) s := by
  rw [live_concat]
  rintro (hinsert | ⟨-, hspares⟩)
  · cases hinsert
  · exact hspares

/-- At most one snapshot of a block is live. -/
theorem Live.eq_of_block_eq (hs : Live operations s) (ht : Live operations t)
    (hblock : s.block = t.block) : s = t := by
  induction operations using List.reverseRecOn with
  | nil => exact absurd hs (not_live_nil s)
  | append_singleton operations op ih =>
      cases op with
      | clear => exact absurd hs not_live_concat_clear
      | insert u =>
          rcases live_concat_insert.mp hs with rfl | ⟨hs, hsu⟩ <;>
            rcases live_concat_insert.mp ht with rfl | ⟨ht, htu⟩
          · rfl
          · omega
          · omega
          · exact ih hs ht

/-! ## Keeping the newest -/

/-- Of the snapshots that are live after some operations, a list has the newest: it has nothing
else, and what it has not is older than all it has. -/
structure KeepsNewest (operations : List Operation) (ts : List Book) : Prop where
  descending : ts.Pairwise fun a b => b.block < a.block
  live : ∀ t ∈ ts, Live operations t
  older : ∀ s, Live operations s → s ∈ ts ∨ ∀ t ∈ ts, s.block < t.block

/-- Cutting off the end leaves the newest. -/
theorem KeepsNewest.take {ts : List Book} (hk : KeepsNewest operations ts) (n : Nat) :
    KeepsNewest operations (ts.take n) where
  descending := hk.descending.sublist (List.take_sublist n ts)
  live t ht := hk.live t (List.mem_of_mem_take ht)
  older s hs := by
    rcases hk.older s hs with hmem | hlt
    · have hdesc := hk.descending
      rw [← List.take_append_drop n ts] at hmem hdesc
      rcases List.mem_append.mp hmem with hfront | hback
      · exact .inl hfront
      · exact .inr fun t ht => (List.pairwise_append.mp hdesc).2.2 t ht s hback
    · exact .inr fun t ht => hlt t (List.mem_of_mem_take ht)

/-- Storing keeps the newest: what it forgets is no longer live, and what it evicts is older than
all that stays. -/
theorem keepsNewest_insert (hk : KeepsNewest operations h.snapshots) (u : Book) :
    KeepsNewest (operations ++ [.insert u]) (h.insert u).snapshots := by
  have hrest : ∀ t, (t ∈ h.snapshots.dropWhile fun t => u.block ≤ t.block) ↔
      t ∈ h.snapshots ∧ t.block < u.block := fun t => mem_dropWhile_iff hk.descending
  have huncut : KeepsNewest (operations ++ [.insert u])
      (u :: h.snapshots.dropWhile fun t => u.block ≤ t.block) := by
    refine ⟨List.pairwise_cons.mpr ⟨fun t ht => ((hrest t).mp ht).2,
      hk.descending.sublist (List.dropWhile_sublist _)⟩, fun t ht => ?_, fun s hs => ?_⟩
    · rcases List.mem_cons.mp ht with rfl | ht
      · exact live_concat_insert.mpr (.inl rfl)
      · obtain ⟨ht, hlt⟩ := (hrest t).mp ht
        exact live_concat_insert.mpr (.inr ⟨hk.live t ht, hlt⟩)
    · rcases live_concat_insert.mp hs with rfl | ⟨hs, hsu⟩
      · exact .inl List.mem_cons_self
      · rcases hk.older s hs with hmem | holder
        · exact .inl (List.mem_cons_of_mem u ((hrest s).mpr ⟨hmem, hsu⟩))
        · refine .inr fun t ht => ?_
          rcases List.mem_cons.mp ht with rfl | ht
          · exact hsu
          · exact holder t ((hrest t).mp ht).1
  exact huncut.take h.capacity

theorem keepsNewest_clear (h : History) :
    KeepsNewest (operations ++ [.clear]) h.clear.snapshots where
  descending := .nil
  live _ ht := absurd ht List.not_mem_nil
  older _ hs := absurd hs not_live_concat_clear

/-- After any operations a history is well formed and has the newest of the live snapshots. -/
theorem keepsNewest_run (capacity : Nat) (operations : List Operation) :
    (run capacity operations).Wf ∧
      (run capacity operations).capacity = max capacity 1 ∧
      KeepsNewest operations (run capacity operations).snapshots := by
  induction operations using List.reverseRecOn with
  | nil =>
      exact ⟨wf_new capacity, rfl, .nil, fun t ht => absurd ht List.not_mem_nil,
        fun s hs => absurd hs (not_live_nil s)⟩
  | append_singleton operations op ih =>
      obtain ⟨hw, hcapacity, hk⟩ := ih
      rw [run_concat]
      cases op with
      | insert u => exact ⟨wf_insert hw u, hcapacity, keepsNewest_insert hk u⟩
      | clear => exact ⟨wf_clear _, hcapacity, keepsNewest_clear _⟩

/-! ## The answers -/

/-- What is retained are the live snapshots from the oldest block on. -/
theorem mem_snapshots_iff (hw : h.Wf) (hk : KeepsNewest operations h.snapshots) :
    s ∈ h.snapshots ↔ Live operations s ∧ ∃ oldest ∈ h.oldestBlock?, oldest ≤ s.block := by
  constructor
  · intro hs
    obtain ⟨o, ho⟩ : ∃ o, h.oldestBlock? = some o := by
      cases hlast : h.snapshots.getLast? with
      | none => simp [List.getLast?_eq_none_iff.mp hlast] at hs
      | some last => exact ⟨last.block, by simp [oldestBlock?, hlast]⟩
    exact ⟨hk.live s hs, o, ho, (oldestBlock?_spec hw ho).2 s hs⟩
  · rintro ⟨hs, o, ho, hle⟩
    obtain ⟨⟨t, ht, rfl⟩, -⟩ := oldestBlock?_spec hw ho
    rcases hk.older s hs with hmem | holder
    · exact hmem
    · have := holder t ht
      omega

/-- The answer for a block is the latest of all live snapshots at or before it. -/
theorem latest_live_of_atOrBefore? (hw : h.Wf) (hk : KeepsNewest operations h.snapshots) {n : Nat}
    (ht : h.atOrBefore? n = some t) :
    Live operations t ∧ t.block ≤ n ∧
      ∀ s, Live operations s → s.block ≤ n → s = t ∨ s.block < t.block := by
  obtain ⟨hmem, hle, hlatest⟩ := atOrBefore?_spec hw ht
  refine ⟨hk.live t hmem, hle, fun s hs hsn => ?_⟩
  rcases hk.older s hs with hkept | holder
  · rcases Nat.eq_or_lt_of_le (hlatest s hkept hsn) with hblock | hlt
    · exact .inl (hs.eq_of_block_eq (hk.live t hmem) hblock)
    · exact .inr hlt
  · exact .inr (holder t hmem)

/-- **A history answers from live snapshots, and from the right one.** After any operations on a
new history of any capacity

* the blocks of the retained snapshots descend strictly from the newest, and there are at most as
  many as the capacity, and one if that is zero;
* the retained snapshots are the live ones from the oldest retained block on;
* a snapshot that is stored next is retained, and is the latest;
* from the oldest retained block on the answer is the live snapshot of the greatest block at or
  before the one in question, and before it, or where nothing is retained, there is none. -/
theorem answers_from_live (capacity : Nat) (operations : List Operation) :
    let h := run capacity operations
    (h.snapshots.Pairwise fun a b => b.block < a.block) ∧
      h.size ≤ max capacity 1 ∧
      (∀ s, s ∈ h.snapshots ↔
        Live operations s ∧ ∃ oldest ∈ h.oldestBlock?, oldest ≤ s.block) ∧
      (∀ s, s ∈ (run capacity (operations ++ [.insert s])).snapshots ∧
        (run capacity (operations ++ [.insert s])).latest? = some s) ∧
      ∀ n, if ∃ oldest ∈ h.oldestBlock?, oldest ≤ n then
          ∃ t, h.atOrBefore? n = some t ∧ Live operations t ∧ t.block ≤ n ∧
            ∀ s, Live operations s → s.block ≤ n → s = t ∨ s.block < t.block
        else h.atOrBefore? n = none := by
  intro h
  obtain ⟨hw, hcapacity, hk⟩ := keepsNewest_run capacity operations
  refine ⟨hw.descending, hcapacity ▸ hw.fits, fun s => mem_snapshots_iff hw hk, fun s => ?_,
    fun n => ?_⟩
  · have hlatest : (run capacity (operations ++ [.insert s])).latest? = some s := by
      rw [run_concat]
      exact latest?_insert _ s
    exact ⟨List.mem_of_head? hlatest, hlatest⟩
  · split
    case isTrue hfrom =>
      obtain ⟨o, ho, hle⟩ := hfrom
      obtain ⟨t, ht⟩ := exists_atOrBefore? hw ho hle
      exact ⟨t, ht, latest_live_of_atOrBefore? hw hk ht⟩
    case isFalse hbefore =>
      refine Option.eq_none_iff_forall_ne_some.mpr fun t ht => hbefore ?_
      obtain ⟨hmem, hle, -⟩ := atOrBefore?_spec hw ht
      obtain ⟨-, o, ho, hot⟩ := (mem_snapshots_iff hw hk).mp hmem
      exact ⟨o, ho, Nat.le_trans hot hle⟩

/-- Storing an older block again makes room, but what was evicted stays unknown. -/
example :
    let h := run 2 [.insert (.empty 1), .insert (.empty 2), .insert (.empty 3), .insert (.empty 2)]
    h.snapshots.map Book.block = [2] ∧ h.atOrBefore? 1 = none := by
  decide

end OfferBook.History
