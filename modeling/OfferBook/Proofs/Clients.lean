import OfferBook.Client
import OfferBook.Proofs.Continuity

/-!
# Asking through a client

A question that is asked through a client is asked until an answer stands, or as often as the client
allows (`Settles`). Two things follow for the feed of a node's blocks. A client that never asks
again shows the node as it is. And whatever the client does, every poll takes the node at least one
answer further, so the replies that are recorded for a block are over after as many polls, and the
feed has an item: what is called the node's patience is enough.

## Main results

* `settles`: what becomes of a question.
* `answers_of_steadfast`: a client that never asks again.
* `isSome_pull`: the patience of a node.
-/

namespace OfferBook

namespace Client

variable {α β : Type} {c : Client}

/-! ## One question -/

/-- What becomes of a question that was asked `earlier` times before. -/
structure Settles (c : Client) (answers : Nat → Except TransportFault α) (earlier left : Nat)
    (asked : Asked α) : Prop where
  pos : 0 < asked.times
  le : asked.times ≤ left + 1
  /-- All answers but the last were rejected. -/
  rejected : ∀ i, i + 1 < asked.times → c.rejects (answers (earlier + i)) = true
  /-- The last one stands, or the question is not asked again, and that is reported. -/
  answer :
    let last := answers (earlier + (asked.times - 1))
    (c.rejects last = false ∧ asked.answer = last) ∨
      (c.rejects last = true ∧ asked.times = left + 1 ∧ asked.answer = last.mapError c.exhausted)

/-- An answer that stands is the last one. -/
theorem ask_of_stands {answers : Nat → Except TransportFault α} {earlier : Nat}
    (h : c.rejects (answers earlier) = false) (left : Nat) :
    c.ask answers left earlier = ⟨1, answers earlier⟩ := by
  cases left <;> rw [ask, h, if_neg Bool.false_ne_true]

namespace Settles

variable {answers : Nat → Except TransportFault α} {earlier left : Nat} {asked : Asked α}

theorem of_stands (h : c.rejects (answers earlier) = false) :
    c.Settles answers earlier left ⟨1, answers earlier⟩ :=
  ⟨Nat.one_pos, Nat.succ_pos left, fun i hi => by simp at hi, .inl ⟨h, rfl⟩⟩

/-- A rejected answer is put in front of those that are given later. -/
theorem of_rejected (h : c.rejects (answers earlier) = true)
    (hlater : c.Settles answers (earlier + 1) left asked) :
    c.Settles answers earlier (left + 1) ⟨asked.times + 1, asked.answer⟩ := by
  refine ⟨Nat.succ_pos _, Nat.succ_le_succ hlater.le, fun i hi => ?_, ?_⟩
  · cases i with
    | zero => exact h
    | succ i =>
        rw [Nat.add_comm i 1, ← Nat.add_assoc]
        exact hlater.rejected i (Nat.lt_of_succ_lt_succ hi)
  · have hlast : earlier + (asked.times + 1 - 1) = earlier + 1 + (asked.times - 1) := by
      have := hlater.pos
      omega
    simpa only [hlast, Nat.add_right_cancel_iff] using hlater.answer

end Settles

theorem settles_ask (c : Client) (answers : Nat → Except TransportFault α) (earlier left : Nat) :
    c.Settles answers earlier left (c.ask answers left earlier) := by
  induction left generalizing earlier with
  | zero =>
      cases h : c.rejects (answers earlier) with
      | false =>
          rw [ask_of_stands h]
          exact .of_stands h
      | true =>
          have hasked : c.ask answers 0 earlier =
              ⟨1, (answers earlier).mapError c.exhausted⟩ := by rw [ask, h, if_pos rfl]
          rw [hasked]
          exact ⟨Nat.one_pos, Nat.le_refl 1, fun i hi => by simp at hi, .inr ⟨h, rfl, rfl⟩⟩
  | succ left ih =>
      cases h : c.rejects (answers earlier) with
      | false =>
          rw [ask_of_stands h]
          exact .of_stands h
      | true =>
          rw [ask, h, if_pos rfl]
          exact .of_rejected h (ih (earlier + 1))

/-- **Asking through a client.** A question is asked at least once, and again as long as its answers
are rejected, but not more often than the client allows. -/
theorem settles (c : Client) (answers : Nat → Except TransportFault α) (earlier : Nat) :
    c.Settles answers earlier c.limit (c.settle answers earlier) :=
  settles_ask c answers earlier c.limit

/-- An answer in the end was given, to this question or a later one. -/
theorem Settles.eq_of_ok {answers : Nat → Except TransportFault α} {earlier left : Nat}
    {asked : Asked α} (h : c.Settles answers earlier left asked) {a : α}
    (hanswer : asked.answer = .ok a) : ∃ later, earlier ≤ later ∧ answers later = .ok a := by
  refine ⟨earlier + (asked.times - 1), Nat.le_add_right _ _, ?_⟩
  rcases h.answer with ⟨-, hstands⟩ | ⟨hrejects, -, hreported⟩
  · rw [← hstands, hanswer]
  · cases hlast : answers (earlier + (asked.times - 1)) with
    | ok a =>
        rw [hlast] at hrejects
        cases hrejects
    | error cause =>
        rw [hlast, hanswer] at hreported
        cases hreported

/-! ## A client that never asks again -/

theorem settle_of_steadfast (h : ∀ cause, c.asksAgain cause = false)
    (answers : Nat → Except TransportFault α) (earlier : Nat) :
    c.settle answers earlier = ⟨1, answers earlier⟩ := by
  have hstands : c.rejects (answers earlier) = false := by
    cases answers earlier with
    | ok _ => rfl
    | error cause => exact h cause
  exact ask_of_stands hstands c.limit

/-- Two questions that were asked once are over at once. -/
theorem rounds_once (block : Except TransportFault α) (logs : Except TransportFault β) :
    rounds ⟨1, block⟩ ⟨1, logs⟩ = 1 := by
  cases block <;> cases logs <;> rfl

theorem poll_of_steadfast (h : ∀ cause, c.asksAgain cause = false) (n : Node) (asked : Questions)
    (earlier : Nat) :
    c.poll n asked ⟨earlier, earlier⟩ = (n.poll asked earlier, ⟨earlier + 1, earlier + 1⟩) := by
  rw [poll, settle_of_steadfast h, settle_of_steadfast h]
  simp only [rounds_once, Nat.le_refl, if_true, Nat.min_self]
  rfl

theorem sent_of_steadfast (h : ∀ cause, c.asksAgain cause = false) (n : Node) (asked : Questions)
    (polls : Nat) : c.sent n asked polls = ⟨polls, polls⟩ := by
  induction polls with
  | zero => rfl
  | succ polls ih => rw [sent, ih, poll_of_steadfast h]

/-- Through a client that never asks again, a feed sees the node as it is. -/
theorem answers_of_steadfast (h : ∀ cause, c.asksAgain cause = false) (n : Node)
    (contract : Address) : c.answers n contract = n.answers contract := by
  funext f
  rw [answers, sent_of_steadfast h, poll_of_steadfast h]
  rfl

/-! ## Patience -/

/-- If the question for the block is still open when the poll is over, the logs have failed. -/
theorem failed_of_rounds_lt {block : Asked α} {logs : Asked β}
    (h : rounds block logs < block.times) : ∃ cause, logs.answer = .error cause := by
  cases hlogs : logs.answer with
  | error cause => exact ⟨cause, rfl⟩
  | ok _ =>
      cases hblock : block.answer <;> simp only [rounds, hlogs, hblock] at h <;> omega

theorem rounds_pos {block : Asked α} {logs : Asked β} (hblock : 0 < block.times)
    (hlogs : 0 < logs.times) : 0 < rounds block logs := by
  unfold rounds
  split <;> omega

/-- Every poll asks both questions once at least. -/
theorem polls_le_sent (c : Client) (n : Node) (asked : Questions) (polls : Nat) :
    polls ≤ (c.sent n asked polls).block ∧ polls ≤ (c.sent n asked polls).logs := by
  induction polls with
  | zero => exact ⟨Nat.le_refl 0, Nat.le_refl 0⟩
  | succ polls ih =>
      obtain ⟨hblock, hlogs⟩ := ih
      have hblockPos := (c.settles (n.blockAnswer asked.block) (c.sent n asked polls).block).pos
      have hlogsPos := (c.settles (n.logsAnswer asked) (c.sent n asked polls).logs).pos
      have hrounds := rounds_pos hblockPos hlogsPos
      simp only [sent, poll]
      omega

end Client

namespace Node

variable {n : Node}

/-- A number is at most the greatest of those it is among. -/
private theorem le_foldl_max {k : Nat} : ∀ {ks : List Nat} {least : Nat},
    k ≤ least ∨ k ∈ ks → k ≤ ks.foldl max least
  | [], _, h => by simpa using h
  | m :: ks, least, h => by
    rw [List.foldl_cons]
    refine le_foldl_max ?_
    rcases h with hle | hmem
    · exact .inl (Nat.le_trans hle (Nat.le_max_left _ _))
    · rcases List.mem_cons.mp hmem with rfl | hmem
      · exact .inl (Nat.le_max_right _ _)
      · exact .inr hmem

/-- A block that was asked for as often as its replies are is there, or it is not known at all. -/
theorem blockAnswer_ne_missing {number earlier : Nat} (h : n.patience ≤ earlier + 1) :
    n.blockAnswer number earlier ≠ .ok none := by
  unfold blockAnswer reply?
  cases hblock : n.block? number with
  | none => nofun
  | some b =>
      have hmem : b ∈ n.blocks := List.mem_of_find?_eq_some hblock
      have hreplies : b.replies.length ≤ earlier := by
        have hmost : b.replies.length ≤ (n.blocks.map fun b => b.replies.length).foldl max 0 :=
          le_foldl_max (.inr (List.mem_map_of_mem hmem))
        unfold patience at h
        omega
      have hknown : b.replies.getD earlier ⟨.asKnown, none⟩ = ⟨.asKnown, none⟩ := by
        rw [List.getD, List.getElem?_eq_none hreplies, Option.getD_none]
      rw [Option.map_some, hknown]
      nofun

end Node

namespace Client

variable {c : Client} {n : Node} {f : Feed} {contract : Address}

/-- A feed that has polled its block so often before gets an item from the next poll. -/
theorem exists_item_of_patience (h : n.patience ≤ f.polled.count f.next + 1) :
    ∃ item, (f.step (c.answers n contract f)).value.2 = some item := by
  rcases Feed.step_cases f (c.answers n contract f) with ⟨cause, -, hstep⟩ |
    ⟨listed, hanswers, -⟩ | ⟨timestamp, listed, -, hstep⟩
  · exact ⟨_, congrArg Prod.snd hstep⟩
  · exfalso
    let asked := f.questions contract
    let sent := c.sent n asked (f.polled.count f.next)
    let block := c.settle (n.blockAnswer asked.block) sent.block
    let logs := c.settle (n.logsAnswer asked) sent.logs
    have hsent : f.polled.count f.next ≤ sent.block := (c.polls_le_sent n asked _).1
    obtain ⟨hblock, hlogs⟩ := PollAnswer.mk.inj hanswers
    by_cases hopen : block.times ≤ rounds block logs
    · rw [if_pos hopen] at hblock
      obtain ⟨later, hlater, hmissing⟩ := (c.settles _ sent.block).eq_of_ok hblock
      have hpatient : n.patience ≤ later + 1 :=
        Nat.le_trans h (Nat.succ_le_succ (Nat.le_trans hsent hlater))
      exact Node.blockAnswer_ne_missing hpatient hmissing
    · obtain ⟨cause, hfailed⟩ := failed_of_rounds_lt (Nat.lt_of_not_le hopen)
      rw [hfailed] at hlogs
      cases hlogs
  · exact ⟨_, congrArg Prod.snd hstep⟩

/-- **The patience of a node.** Through whatever client, so many polls bring the next item of a
feed, or fewer if the block was polled before. -/
theorem isSome_pull {patience : Nat} (hpos : 0 < patience)
    (h : n.patience ≤ f.polled.count f.next + patience) :
    (f.pull (c.answers n contract) patience).value.isSome := by
  induction patience generalizing f with
  | zero => exact absurd hpos (Nat.lt_irrefl 0)
  | succ patience ih =>
      cases hstep : (f.step (c.answers n contract f)).value.2 with
      | some item => rw [Feed.pull_of_item hstep, Option.isSome_some]
      | none =>
          have hmore : 0 < patience := by
            refine Nat.pos_of_ne_zero fun hzero => ?_
            rw [hzero] at h
            obtain ⟨item, hitem⟩ : ∃ item, (f.step (c.answers n contract f)).value.2 = some item :=
              exists_item_of_patience h
            rw [hitem] at hstep
            cases hstep
          have hnext := Feed.next_step_of_missing hstep
          have hpolled := Feed.polled_step f (c.answers n contract f)
          rw [Feed.pull_of_missing hstep, Option.isSome_map]
          refine ih hmore ?_
          rw [hnext, hpolled, List.count_cons_self]
          omega

end Client

end OfferBook
