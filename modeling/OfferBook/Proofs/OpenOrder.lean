import Mathlib.Data.List.Induction
import OfferBook.Proofs.Consistency

/-!
# When a taken offer stays

Orders start within orders, and which of them is open is a matter of how starts and completions
match. `Matched inside own` reads a stretch of events in which all of them match: what stands
between a start and its completion is an order of its own, and `own` is what is left when these
orders are left out. The innermost open order is then the last start that is followed by such a
stretch, and `own` are the events at the order's own level (`OpenOrder`). A completion with no
order open matches nothing. It can only stand in front of that start, where nothing is asked of
the events.

The nesting keeps for the innermost order what its own level has written and not yet settled
(`applyAll_of_open`), and nothing else: an order that is complete leaves no trace
(`applyAll_order`), whatever was written in it. So whether a success takes an offer off the
book can be read off the events.

## Main results

* `applyAll_of_matched`: a stretch of matching events has the effect of its own level.
* `idle_iff_no_openOrder`: the nesting is idle exactly if no order is open.
* `book_apply_success`: when a success leaves the book as it is, and what it does otherwise.
-/

namespace OfferBook

variable {events inside own front back : List BookEvent} {e : BookEvent} {id : Word}

namespace BookEvent

/-- Whether an event starts or completes an order. -/
def isBracket : BookEvent → Bool
  | orderStart | orderComplete => true
  | _ => false

/-- The offer whose write an event accounts for. -/
def settled? : BookEvent → Option Word
  | offerSuccess id | offerFail id => some id
  | _ => none

end BookEvent

/-! ## The shape of a history -/

/-- In `inside` every start has its completion and every completion its start; outside the orders
that these enclose, it has the events `own`. -/
inductive Matched : List BookEvent → List BookEvent → Prop where
  | nil : Matched [] []
  /-- An event that neither starts nor completes an order belongs to the level. -/
  | event {inside own : List BookEvent} {e : BookEvent} : e.isBracket = false →
      Matched inside own → Matched (inside ++ [e]) (own ++ [e])
  /-- An order that is complete does not, nor does anything in it. -/
  | order {inside own nested inner : List BookEvent} : Matched inside own → Matched nested inner →
      Matched (inside ++ .orderStart :: (nested ++ [.orderComplete])) own

/-- An order is open, and these are the events at the own level of the innermost one. -/
def OpenOrder (events own : List BookEvent) : Prop :=
  ∃ before inside, events = before ++ .orderStart :: inside ∧ Matched inside own

/-- There is a write of the offer that no success or failure of it follows. -/
def Unsettled (own : List BookEvent) (id : Word) : Prop :=
  ∃ front e back, own = front ++ e :: back ∧ e.written? = some id ∧
    ∀ later ∈ back, later.settled? ≠ some id

theorem Matched.isBracket (h : Matched inside own) : ∀ e ∈ own, e.isBracket = false := by
  induction h with
  | nil => simp
  | event he _ ih =>
      intro x hx
      rcases List.mem_append.mp hx with hx | hx
      · exact ih x hx
      · rw [List.mem_singleton.mp hx]
        exact he
  | order _ _ ih => exact ih

/-- One more event either writes the offer or keeps an unsettled write unless it settles it. -/
theorem unsettled_concat :
    Unsettled (own ++ [e]) id ↔
      e.written? = some id ∨ Unsettled own id ∧ e.settled? ≠ some id := by
  constructor
  · rintro ⟨front, w, back, hsplit, hw, hback⟩
    cases back using List.reverseRecOn with
    | nil =>
        obtain ⟨-, rfl⟩ := List.append_inj' hsplit rfl |>.imp_right List.singleton_inj.mp
        exact .inl hw
    | append_singleton back last =>
        rw [← List.cons_append, ← List.append_assoc] at hsplit
        obtain ⟨rfl, hlast⟩ := List.append_inj' hsplit rfl
        obtain rfl := List.singleton_inj.mp hlast
        refine .inr ⟨⟨front, w, back, rfl, hw, fun later hl => ?_⟩, ?_⟩
        · exact hback later (List.mem_append_left _ hl)
        · exact hback e (List.mem_append_right _ (List.mem_singleton_self e))
  · rintro (hw | ⟨⟨front, w, back, rfl, hw, hback⟩, he⟩)
    · exact ⟨own, e, [], rfl, hw, fun later hl => absurd hl List.not_mem_nil⟩
    · refine ⟨front, w, back ++ [e], by simp, hw, fun later hl => ?_⟩
      rcases List.mem_append.mp hl with hl | hl
      · exact hback later hl
      · rw [List.mem_singleton.mp hl]
        exact he

namespace Nesting

/-! ## What the nesting remembers -/

/-- What is remembered for the innermost order after an event at its own level. -/
def remember (frame : IdSet) : BookEvent → IdSet
  | .offerWrite id .. => frame.insert id
  | .offerSuccess id | .offerFail id => frame.erase id
  | _ => frame

theorem mem_remember {frame : IdSet} :
    id ∈ remember frame e ↔ e.written? = some id ∨ id ∈ frame ∧ e.settled? ≠ some id := by
  cases e <;>
    simp [remember, BookEvent.written?, BookEvent.settled?, IdSet.mem_insert, IdSet.mem_erase,
      eq_comm, and_comm]

/-- What is remembered is what was written and not settled. -/
theorem mem_foldl_remember : id ∈ own.foldl remember .empty ↔ Unsettled own id := by
  induction own using List.reverseRecOn with
  | nil => simp [Unsettled]
  | append_singleton own e ih =>
      rw [List.foldl_append, List.foldl_cons, List.foldl_nil, mem_remember, unsettled_concat, ih]

private theorem settle_cons {frame : IdSet} {rest : List IdSet} :
    (settle ⟨frame :: rest⟩ id).2 = ⟨frame.erase id :: rest⟩ := by
  unfold settle
  by_cases hid : id ∈ frame
  · simp [hid]
  · have herase : frame.erase id = frame := by
      refine IdSet.ext fun x => ?_
      rw [IdSet.mem_erase]
      exact and_iff_right_of_imp fun hx heq => hid (heq ▸ hx)
    simp [hid, herase]

/-- An event at the level of the innermost order leaves the outer ones alone. -/
theorem apply_cons {frame : IdSet} {rest : List IdSet} (he : e.isBracket = false) :
    apply ⟨frame :: rest⟩ e = ⟨remember frame e :: rest⟩ := by
  cases e with
  | orderStart | orderComplete => cases he
  | offerSuccess id | offerFail id => exact settle_cons
  | _ => rfl

/-- With no order open, such an event is not remembered at all. -/
theorem apply_idle (he : e.isBracket = false) : apply idle e = idle := by
  cases e with
  | orderStart | orderComplete => cases he
  | _ => rfl

theorem applyAll_cons_of_own {frame : IdSet} {rest : List IdSet}
    (hown : ∀ e ∈ own, e.isBracket = false) :
    applyAll ⟨frame :: rest⟩ own = ⟨own.foldl remember frame :: rest⟩ := by
  induction own generalizing frame with
  | nil => rfl
  | cons e own ih =>
      have hrest : ∀ x ∈ own, x.isBracket = false := fun x hx =>
        hown x (List.mem_cons_of_mem _ hx)
      show applyAll (apply ⟨frame :: rest⟩ e) own = _
      rw [apply_cons (hown e List.mem_cons_self), ih hrest]
      rfl

/-- A completion takes away what an order's own level has written: an order in which the events
come to their own level leaves the nesting as it was before its start. -/
private theorem applyAll_order_of_own {nested inner : List BookEvent}
    (hinner : ∀ e ∈ inner, e.isBracket = false)
    (h : ∀ n : Nesting, n.applyAll nested = n.applyAll inner) (n : Nesting) :
    n.applyAll (.orderStart :: (nested ++ [.orderComplete])) = n := by
  have hend : n.start.applyAll nested = ⟨inner.foldl remember .empty :: n.frames⟩ := by
    rw [h]
    exact applyAll_cons_of_own hinner
  show n.start.applyAll (nested ++ [.orderComplete]) = n
  rw [applyAll_concat, hend]
  rfl

/-- A stretch of matching events does what its own level does. -/
theorem applyAll_of_matched (h : Matched inside own) (n : Nesting) :
    n.applyAll inside = n.applyAll own := by
  induction h generalizing n with
  | nil => rfl
  | event _ _ ih => rw [applyAll_concat, applyAll_concat, ih]
  | order _ hnested ihInside ihNested =>
      rw [applyAll_append, applyAll_order_of_own hnested.isBracket ihNested, ihInside]

/-- An order that is complete leaves the nesting as it was before its start. -/
theorem applyAll_order (h : Matched inside own) (n : Nesting) :
    n.applyAll (.orderStart :: (inside ++ [.orderComplete])) = n :=
  applyAll_order_of_own h.isBracket (applyAll_of_matched h) n

/-- The innermost frame is what the own level of the innermost order leaves unsettled, and the
others are those from before its start. -/
theorem applyAll_of_open (h : Matched inside own) (before : List BookEvent) :
    idle.applyAll (before ++ .orderStart :: inside) =
      ⟨own.foldl remember .empty :: (idle.applyAll before).frames⟩ := by
  rw [applyAll_append]
  show (idle.applyAll before).start.applyAll inside = _
  rw [applyAll_of_matched h]
  exact applyAll_cons_of_own h.isBracket

/-- While the nesting is not idle, an order is open. The induction is on the length of the history,
because after a completion the innermost order has to be found in front of the one that was
completed. -/
private theorem openOrder_of_ne_idle (h : idle.applyAll events ≠ idle) :
    ∃ own, OpenOrder events own := by
  induction hlength : events.length using Nat.strongRecOn generalizing events with
  | ind n ih =>
      cases events using List.reverseRecOn with
      | nil => exact absurd rfl h
      | append_singleton events e =>
          have hlt : events.length < n := by
            rw [← hlength, List.length_append, List.length_singleton]
            omega
          rw [applyAll_concat] at h
          by_cases hstart : e = .orderStart
          · subst hstart
            exact ⟨[], events, [], rfl, .nil⟩
          have hopen : ∃ own, OpenOrder events own := by
            refine ih events.length hlt ?_ rfl
            intro hidle
            rw [hidle] at h
            cases e with
            | orderStart => exact hstart rfl
            | orderComplete => exact h rfl
            | _ => exact h (apply_idle rfl)
          obtain ⟨own, before, inside, rfl, hmatched⟩ := hopen
          by_cases hcomplete : e = .orderComplete
          · subst hcomplete
            rw [applyAll_of_open hmatched] at h
            have hbefore : before.length < n := by
              rw [List.length_append] at hlt
              omega
            obtain ⟨own', before', inside', rfl, hmatched'⟩ :=
              ih before.length hbefore (fun hidle => h hidle) rfl
            exact ⟨own', before', _, by simp, .order hmatched' hmatched⟩
          · have he : e.isBracket = false := by
              cases e with
              | orderStart => exact absurd rfl hstart
              | orderComplete => exact absurd rfl hcomplete
              | _ => rfl
            exact ⟨own ++ [e], before, inside ++ [e], by simp, .event he hmatched⟩

/-- The nesting is idle exactly if no order is open. -/
theorem idle_iff_no_openOrder : idle.applyAll events = idle ↔ ¬ ∃ own, OpenOrder events own := by
  constructor
  · rintro hidle ⟨own, before, inside, rfl, hmatched⟩
    rw [applyAll_of_open hmatched] at hidle
    cases hidle
  · intro hnone
    by_contra hne
    exact hnone (openOrder_of_ne_idle hne)

/-- With no order open, a success takes nothing off the book. -/
theorem removed?_success_of_no_openOrder (id : Word)
    (h : ¬ ∃ own, OpenOrder events own) :
    (idle.applyAll events).removed? (.offerSuccess id) = none := by
  rw [idle_iff_no_openOrder.mpr h]
  rfl

/-- During an order, a success takes the offer off the book unless the order's own level has a
write of it to account for. -/
theorem removed?_success_of_openOrder (id : Word) (h : OpenOrder events own) :
    (idle.applyAll events).removed? (.offerSuccess id) =
      if id ∈ own.foldl remember .empty then none else some id := by
  obtain ⟨before, inside, rfl, hmatched⟩ := h
  rw [applyAll_of_open hmatched]
  by_cases hid : id ∈ own.foldl remember .empty <;> simp [removed?, settle, hid]

end Nesting

/-! ## The book -/

/-- **When a taken offer stays.** After any sequence of events on a consistent book, a success
leaves the book as it is exactly if no order is open, or the innermost open order has at its own
level a write of the offer that no success or failure of it follows there, or the offer is not in
the book. In every other case the offer leaves, and all others keep their terms and their order. -/
theorem book_apply_success {first : Book} (h : first.Consistent) (events : List BookEvent)
    (id : Word) :
    let s := BookState.applyAll ⟨first, .idle⟩ events
    let after := (s.apply (.offerSuccess id)).value.book
    let stays := (¬ ∃ own, OpenOrder events own) ∨
      (∃ own, OpenOrder events own ∧ Unsettled own id) ∨ id ∉ s.book.ids
    (after = s.book ↔ stays) ∧
      (¬ stays → after = { s.book with entries := s.book.entries.filter fun e => e.id ≠ id }) := by
  intro s after stays
  have hids : s.book.ids.Nodup := (BookState.consistent_applyAll h events).2
  have hnesting : s.nesting = Nesting.idle.applyAll events := BookState.nesting_applyAll _ events
  have hkept : s.nesting.removed? (.offerSuccess id) = none → after = s.book :=
    BookState.book_apply_other rfl
  by_cases hopen : ∃ own, OpenOrder events own
  · obtain ⟨own, hown⟩ := hopen
    have hremoved := Nesting.removed?_success_of_openOrder id hown
    by_cases hid : id ∈ own.foldl Nesting.remember .empty
    · have hstays : stays := .inr (.inl ⟨own, hown, Nesting.mem_foldl_remember.mp hid⟩)
      rw [if_pos hid, ← hnesting] at hremoved
      exact ⟨iff_of_true (hkept hremoved) hstays, fun hleaves => absurd hstays hleaves⟩
    · rw [if_neg hid, ← hnesting] at hremoved
      have hafter : after = s.book.remove id := BookState.book_apply_removed hremoved
      have hstays : stays ↔ id ∉ s.book.ids := by
        constructor
        · rintro (hnone | ⟨other, hother, hunsettled⟩ | habsent)
          · exact absurd ⟨own, hown⟩ hnone
          · have hkeeps := Nesting.removed?_success_of_openOrder id hother
            rw [if_pos (Nesting.mem_foldl_remember.mpr hunsettled), ← hnesting, hremoved] at hkeeps
            cases hkeeps
          · exact habsent
        · intro habsent
          exact .inr (.inr habsent)
      rw [hafter, hstays]
      exact ⟨Book.remove_eq_self_iff hids, fun _ => Book.remove_eq_filter hids id⟩
  · have hstays : stays := .inl hopen
    have hremoved := Nesting.removed?_success_of_no_openOrder id hopen
    rw [← hnesting] at hremoved
    exact ⟨iff_of_true (hkept hremoved) hstays, fun hleaves => absurd hstays hleaves⟩

/-- An order writes one offer, and a second order within it another. That one is taken only after
the inner order, and one more at the same depth, are complete: its write does not count any more,
and it leaves. A completion in front of all orders makes no difference. -/
theorem book_apply_success_nested_write :
    let tick : Tick := ⟨3, by decide, by decide⟩
    let first : Book := ⟨10, 0, [⟨2, ⟨tick, 7, none, none⟩, ⟨0xbb, 150000, 300, 3⟩⟩]⟩
    let events : List BookEvent :=
      [.orderComplete, .orderStart, .offerWrite 1 0xdd tick 6 100000 2, .orderStart,
        .offerWrite 2 0xdd tick 5 100000 2, .orderComplete, .orderStart, .orderComplete]
    let s := BookState.applyAll ⟨first, .idle⟩ events
    first.Consistent ∧ (∃ own, OpenOrder events own) ∧ (¬ ∃ own, OpenOrder events own ∧
      Unsettled own 2) ∧ 2 ∈ s.book.ids ∧ (s.apply (.offerSuccess 2)).value.book =
        { s.book with entries := s.book.entries.filter fun e => e.id ≠ 2 } := by
  intro tick first events s
  have hfirst : first.Consistent := by decide
  obtain ⟨hstays, hleaves⟩ := book_apply_success hfirst events 2
  have hne : (s.apply (.offerSuccess 2)).value.book ≠ s.book := by decide +kernel
  have hnot := mt hstays.mpr hne
  obtain ⟨hopen, hwritten, hid⟩ : _ ∧ _ ∧ _ := by simpa only [not_or, not_not] using hnot
  exact ⟨hfirst, hopen, hwritten, hid, hleaves hnot⟩

end OfferBook
