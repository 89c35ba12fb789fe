import Mathlib.Data.List.Perm.Subperm
import OfferBook.Proofs.Clients
import OfferBook.Proofs.Following

/-!
# Every run ends

The loop that follows a market is told how many polls and how many items to try, and a run that has
tried them all is given up. A node in earnest is not given up, and a recorded one need not be: an
item comes within the node's patience, and if no other item ends the run, the blocks come one after
another. They are all different, and known to the node, which knows a finite number of them; the
item behind the last one is a failure.

## Main results

* `givenUp_cases`: what a run that was given up has tried.
* `givenUp_run`: no run is given up.
-/

namespace OfferBook

/-! ## Blocks a node knows -/

/-- A block that a node answers for is one it knows. -/
theorem Node.known_of_blockAnswer {n : Node} {number earlier timestamp : Nat}
    (h : n.blockAnswer number earlier = .ok (some timestamp)) :
    number ∈ n.blocks.map KnownBlock.number := by
  unfold blockAnswer reply? block? at h
  cases hblock : n.blocks.find? fun b => b.number = number with
  | none =>
      rw [hblock] at h
      cases h
  | some b =>
      have hnumber : b.number = number := by simpa using List.find?_some hblock
      exact List.mem_map.mpr ⟨b, List.mem_of_find?_eq_some hblock, hnumber⟩

namespace Client

variable {c : Client} {n : Node} {contract : Address} {f g : Feed} {patience : Nat}

theorem known_of_answers {timestamp : Nat} {listed : Except TransportFault (List Log)}
    (h : c.answers n contract f = ⟨.ok (some timestamp), listed⟩) :
    f.next ∈ n.blocks.map KnownBlock.number := by
  have hblock := congrArg PollAnswer.block h
  simp only [answers, poll] at hblock
  split at hblock
  · obtain ⟨later, -, hknown⟩ := (c.settles _ _).eq_of_ok hblock
    exact Node.known_of_blockAnswer hknown
  · cases hblock

/-- A batch that comes from a node is of a block the node knows. -/
theorem known_of_pull {p : Pulled} {batch : Batch}
    (h : (f.pull (c.answers n contract) patience).value = some p) (hitem : p.item = .ok batch) :
    batch.instant.block ∈ n.blocks.map KnownBlock.number := by
  refine Feed.pull_induction (motive := fun f p => ∀ batch, p.item = .ok batch →
    batch.instant.block ∈ n.blocks.map KnownBlock.number) h ?_ (fun _ _ _ ih => ih) batch hitem
  rintro f item hstep batch rfl
  rcases Feed.step_cases f (c.answers n contract f) with ⟨cause, -, h⟩ | ⟨listed, -, h⟩ |
    ⟨timestamp, listed, hanswers, h⟩
  · rw [h] at hstep
    cases hstep
  · rw [h] at hstep
    cases hstep
  · rw [h] at hstep
    cases hstep
    exact known_of_answers hanswers

end Client

/-! ## Batches that come -/

namespace Feed.Delivers

variable {answers : Feed → PollAnswer} {f g : Feed} {patience : Nat} {batches : List Batch}

/-- The blocks are counted in 64 bits. -/
theorem blocks_mod (h : Delivers answers patience f batches g)
    (hnext : f.next < 0x10000000000000000) :
    batches.map (fun b => b.instant.block) =
      (List.range batches.length).map fun i => (f.next + i) % 0x10000000000000000 := by
  induction h with
  | nil f => rfl
  | @cons f g p batch batches hpull hitem hrest ih =>
      obtain ⟨hblock, hbehind⟩ := block_of_pull hpull hitem
      have hmod : p.feed.next = (f.next + 1) % 0x10000000000000000 := hbehind
      rw [List.map_cons, List.length_cons, List.range_succ_eq_map, List.map_cons, List.map_map,
        hblock, ih (by omega), hmod]
      refine congrArg₂ _ (Nat.mod_eq_of_lt hnext).symm (List.map_congr_left fun i _ => ?_)
      rw [Function.comp_apply, Nat.mod_add_mod, Nat.add_assoc, Nat.add_comm 1]

/-- As many blocks as 64 bits can tell apart are all different. -/
theorem nodup_blocks (h : Delivers answers patience f batches g)
    (hnext : f.next < 0x10000000000000000) (hroom : batches.length ≤ 0x10000000000000000) :
    (batches.map fun b => b.instant.block).Nodup := by
  rw [h.blocks_mod hnext, List.Nodup, List.pairwise_map]
  refine List.pairwise_lt_range.imp_of_mem fun {i j} hi hj hlt => ?_
  rw [List.mem_range] at hi hj
  omega

/-- From a node come no more batches than it knows blocks. -/
theorem length_le_of_node {c : Client} {n : Node} {contract : Address}
    (h : Delivers (c.answers n contract) patience f batches g)
    (hnext : f.next < 0x10000000000000000) (hroom : batches.length ≤ 0x10000000000000000) :
    batches.length ≤ n.blocks.length := by
  have hknown : (batches.map fun b => b.instant.block) ⊆ n.blocks.map KnownBlock.number := by
    clear hnext hroom
    induction h with
    | nil f => exact List.nil_subset _
    | cons hpull hitem hrest ih =>
        exact List.cons_subset.mpr ⟨Client.known_of_pull hpull hitem, ih⟩
  simpa using (List.subperm_of_subset (h.nodup_blocks hnext hroom) hknown).length_le

end Feed.Delivers

/-! ## The loop -/

namespace Command

variable {σ : Type} (source : Source) (display : Display σ)

/-- A run that was given up has used as many items as it was allowed, or the next one did not come
in time. -/
theorem givenUp_cases {items : Nat} {left : Option Nat} {pool : Pool} {feed : Feed} {kept : σ}
    (h : (follow source display items left ⟨pool, feed, kept⟩).value.ending = .givenUp) :
    ∃ batches g, Feed.Delivers source.answers source.patience feed batches g ∧
      (batches.length = items ∨ (g.pull source.answers source.patience).value = none) := by
  induction items generalizing left pool feed kept with
  | zero => exact ⟨[], feed, .nil feed, .inl rfl⟩
  | succ items ih =>
      cases hpull : (feed.pull source.answers source.patience).value with
      | none => exact ⟨[], feed, .nil feed, .inr hpull⟩
      | some p =>
          cases hstops : source.stops p.feed left with
          | true =>
              rw [follow_of_done source display hpull hstops] at h
              cases h
          | false =>
              cases hitem : p.item with
              | error fault =>
                  rw [follow_of_failure source display hpull hitem hstops] at h
                  cases h
              | ok batch =>
                  rw [follow_of_wanted source display hpull hitem hstops] at h
                  obtain ⟨batches, g, hrest, hend⟩ := ih h
                  exact ⟨batch :: batches, g, .cons hpull hitem hrest,
                    hend.imp_left fun hlength => congrArg Nat.succ hlength⟩

/-- Following a market in a session is never given up. -/
theorem ending_follow_ne_givenUp {s : Session} (hroom : s.node.blocks.length < 0x10000000000000000)
    (contract : Address) (left : Option Nat) (pool : Pool) (block : Nat) (kept : σ) :
    (follow (sourceOf contract s) display (sourceOf contract s).limit left
      ⟨pool, Feed.start (next64 block), kept⟩).value.ending ≠ .givenUp := by
  intro h
  obtain ⟨batches, g, hbatches, hlength | hnone⟩ := givenUp_cases (sourceOf contract s) display h
  · have hnext : next64 block < 0x10000000000000000 := Nat.mod_lt _ (by decide)
    have hlimit : batches.length = s.node.blocks.length + 1 := hlength
    have hle := hbatches.length_le_of_node hnext (by omega)
    omega
  · have hpull : (g.pull (s.client.answers s.node contract) s.node.patience).value = none := hnone
    have hsome : (g.pull (s.client.answers s.node contract) s.node.patience).value.isSome :=
      Client.isSome_pull (Nat.succ_pos _) (Nat.le_add_left _ _)
    rw [hpull] at hsome
    cases hsome

/-- **Every run ends.** Whatever the command and whenever it is interrupted, a run on a node that
does not know all blocks there can be is never given up: it is complete, or a fault ends it. -/
theorem givenUp_run (o : Options) (colored : Bool) {s : Session}
    (hroom : s.node.blocks.length < 0x10000000000000000) :
    (run o colored s).value.givenUp = false := by
  rcases run_cases o colored s with ⟨calls, fault, hrun⟩ | ⟨calls, pool, -, hrun⟩
  · rw [hrun]
    rfl
  · rw [hrun, runOn]
    split
    next => rfl
    next initial _ _ => exact decide_eq_false (ending_follow_ne_givenUp _ hroom _ _ _ _ _)
    next depth initial _ _ => exact decide_eq_false (ending_follow_ne_givenUp _ hroom _ _ _ _ _)
    next => rfl

end Command

end OfferBook
