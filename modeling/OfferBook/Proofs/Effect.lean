import OfferBook.Book.Apply

/-!
# What one event does

The state that events work on has two halves, and they influence each other in one direction
only. The nesting runs on its own: it reads the events and never the book. The book reads the
nesting at one place, where a successful take has to know whether the innermost order wrote the
offer. This module cuts `BookState.apply` along that line, so that no later proof has to open it.

`Nesting.apply` is the nesting's half. For the book's half an event is one of three things: a
write, a removal of the offer that `Nesting.removed?` names, or nothing.

## Main results

* `nesting_apply`, `nesting_applyAll`: the nesting of a state runs through `Nesting.apply`.
* `book_apply_write`, `book_apply_removed`, `book_apply_other`: what becomes of the book.
* `book_apply_induction`: what writes and removals keep, every event keeps.
* `mem_notices_apply`: what there may be to remark on an event.
-/

namespace OfferBook

namespace BookEvent

/-- The offer an event writes. -/
def written? : BookEvent → Option Word
  | offerWrite id .. => some id
  | _ => none

/-- An event that writes an offer is a write of it. -/
theorem eq_offerWrite_of_written? {e : BookEvent} {id : Word} (h : e.written? = some id) :
    ∃ maker tick gives gasreq gasprice, e = offerWrite id maker tick gives gasreq gasprice := by
  cases e with
  | offerWrite i maker tick gives gasreq gasprice =>
      obtain rfl : i = id := Option.some.inj h
      exact ⟨maker, tick, gives, gasreq, gasprice, rfl⟩
  | _ => cases h

end BookEvent

namespace Nesting

/-! ## The nesting's half -/

/-- The nesting after one event. -/
def apply (n : Nesting) : BookEvent → Nesting
  | .orderStart => n.start
  | .orderComplete => n.complete?.getD n
  | .offerWrite id .. => n.touch id
  | .offerSuccess id | .offerFail id => (n.settle id).2
  | .offerRetract _ | .offerSuccessWithPosthookData _ | .offerFailWithPosthookData _ => n

/-- The nesting after a sequence of events. -/
def applyAll (n : Nesting) (events : List BookEvent) : Nesting := events.foldl apply n

@[simp] theorem applyAll_nil (n : Nesting) : n.applyAll [] = n := rfl

theorem applyAll_concat (n : Nesting) (events : List BookEvent) (e : BookEvent) :
    n.applyAll (events ++ [e]) = (n.applyAll events).apply e := by
  simp [applyAll]

theorem applyAll_append (n : Nesting) (events more : List BookEvent) :
    n.applyAll (events ++ more) = (n.applyAll events).applyAll more := by
  simp [applyAll]

/-- Starts and completions count the open orders up and down, never below zero. -/
theorem depth_apply (n : Nesting) (e : BookEvent) :
    (n.apply e).depth =
      match e with
      | .orderStart => n.depth + 1
      | .orderComplete => n.depth - 1
      | _ => n.depth := by
  cases e with
  | orderStart => exact depth_start n
  | orderComplete => obtain ⟨_ | ⟨frame, rest⟩⟩ := n <;> rfl
  | offerWrite id => exact depth_touch n id
  | offerSuccess id | offerFail id => exact depth_settle n id
  | offerRetract | offerSuccessWithPosthookData | offerFailWithPosthookData => rfl

/-- The offer that an event takes off the book, given the orders open before it. A success takes
an offer off only if the innermost open order did not write it. -/
def removed? (n : Nesting) : BookEvent → Option Word
  | .offerSuccess id => if (n.settle id).1 = .untouched then some id else none
  | .offerRetract id | .offerFail id => some id
  | .offerSuccessWithPosthookData id | .offerFailWithPosthookData id => some id
  | .orderStart | .orderComplete | .offerWrite .. => none

/-- No event both writes an offer and removes one. -/
theorem written?_of_removed? {n : Nesting} {e : BookEvent} {id : Word}
    (h : n.removed? e = some id) : e.written? = none := by
  cases e with
  | offerWrite => cases h
  | _ => rfl

end Nesting

namespace BookState

/-! ## The two halves of a step -/

/-- The nesting of a state runs on its own. -/
theorem nesting_apply (s : BookState) (e : BookEvent) :
    (s.apply e).value.nesting = s.nesting.apply e := by
  cases e with
  | orderComplete =>
      simp only [apply, Nesting.apply]
      cases s.nesting.complete? <;> rfl
  | offerSuccess id =>
      simp only [apply, Nesting.apply]
      cases (s.nesting.settle id).1 <;> rfl
  | _ => rfl

/-- A write replaces or adds the offer. -/
theorem book_apply_write (s : BookState) (id : Word) (maker : Address) (tick : Tick)
    (gives : Word) (gasreq gasprice : UInt64) :
    (s.apply (.offerWrite id maker tick gives gasreq gasprice)).value.book =
      s.book.write id maker tick gives gasreq gasprice := rfl

/-- An event that removes an offer does nothing else to the book. -/
theorem book_apply_removed {s : BookState} {e : BookEvent} {id : Word}
    (h : s.nesting.removed? e = some id) : (s.apply e).value.book = s.book.remove id := by
  cases e with
  | orderStart | orderComplete | offerWrite => cases h
  | offerSuccess i =>
      simp only [Nesting.removed?, Option.ite_none_right_eq_some, Option.some.injEq] at h
      obtain ⟨hu, rfl⟩ := h
      simp only [apply, hu]
      rfl
  | offerRetract i | offerFail i | offerSuccessWithPosthookData i | offerFailWithPosthookData i =>
      obtain rfl : i = id := Option.some.inj h
      rfl

/-- An event that neither writes nor removes leaves the book alone. -/
theorem book_apply_other {s : BookState} {e : BookEvent} (hw : e.written? = none)
    (hr : s.nesting.removed? e = none) : (s.apply e).value.book = s.book := by
  cases e with
  | orderStart => rfl
  | orderComplete =>
      simp only [apply]
      cases s.nesting.complete? <;> rfl
  | offerWrite => cases hw
  | offerSuccess i =>
      have hu : (s.nesting.settle i).1 ≠ .untouched := by simpa [Nesting.removed?] using hr
      simp only [apply]
      cases hs : (s.nesting.settle i).1 with
      | untouched => exact absurd hs hu
      | _ => rfl
  | offerRetract | offerFail | offerSuccessWithPosthookData | offerFailWithPosthookData =>
      cases hr

/-- What writes and removals keep of a book, every event keeps. -/
theorem book_apply_induction {P : Book → Prop} {s : BookState} (e : BookEvent) (h : P s.book)
    (write : ∀ id maker tick gives gasreq gasprice,
      P (s.book.write id maker tick gives gasreq gasprice))
    (remove : ∀ id, P (s.book.remove id)) : P (s.apply e).value.book := by
  cases hw : e.written? with
  | some id =>
      obtain ⟨maker, tick, gives, gasreq, gasprice, rfl⟩ :=
        BookEvent.eq_offerWrite_of_written? hw
      exact write id maker tick gives gasreq gasprice
  | none =>
      cases hr : s.nesting.removed? e with
      | some id => exact book_apply_removed hr ▸ remove id
      | none => exact (book_apply_other hw hr).symm ▸ h

/-- There is nothing to remark on an event but an order or an offer that is missing. -/
theorem mem_notices_apply {s : BookState} {e : BookEvent} {n : Notice}
    (h : n ∈ (s.apply e).notices) :
    n ∈ [Notice.completeWithoutOrder, .successWithoutOrder, .failWithoutOrder,
      .retractOfAbsentOffer] := by
  have hretract {s : BookState} {id : Word} (h : n ∈ (s.retract id).notices) :
      n = .retractOfAbsentOffer := by
    simp only [retract, Book.retract, Traced.notices_bind, Traced.notices_pure,
      List.append_nil] at h
    split at h <;> simp_all
  cases e with
  | orderStart | offerWrite => cases h
  | orderComplete =>
      simp only [apply] at h
      cases hc : s.nesting.complete? <;> simp_all
  | offerSuccess id =>
      simp only [apply] at h
      cases hs : (s.nesting.settle id).1 with
      | touched => simp [hs] at h
      | untouched => simp [hretract (by simpa [hs] using h)]
      | noOpenOrder => simp_all
  | offerFail id =>
      rcases List.mem_append.mp h with hnote | hrest
      · simp only [Traced.noteIf] at hnote
        split at hnote <;> simp_all
      · simp [hretract hrest]
  | offerRetract | offerSuccessWithPosthookData | offerFailWithPosthookData =>
      simp [hretract h]

/-! ## Sequences of events -/

@[simp] theorem applyAll_nil (s : BookState) : s.applyAll [] = s := rfl

theorem applyAll_concat (s : BookState) (events : List BookEvent) (e : BookEvent) :
    s.applyAll (events ++ [e]) = ((s.applyAll events).apply e).value := by
  simp [applyAll]

theorem applyAll_append (s : BookState) (events more : List BookEvent) :
    s.applyAll (events ++ more) = (s.applyAll events).applyAll more := by
  simp [applyAll]

/-- The nesting of a state runs on its own through any sequence of events. -/
theorem nesting_applyAll (s : BookState) (events : List BookEvent) :
    (s.applyAll events).nesting = s.nesting.applyAll events := by
  induction events generalizing s with
  | nil => rfl
  | cons e rest ih =>
      have h := ih (s.apply e).value
      rw [nesting_apply] at h
      exact h

end BookState

end OfferBook
