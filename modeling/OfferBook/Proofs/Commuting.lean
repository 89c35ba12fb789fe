import OfferBook.Proofs.OpenOrder

/-!
# Events on different offers

Two events on different offers may be applied in either order. Their effects meet in two places.
A write puts its offer behind all that rest at its tick, and whatever the other event removed or
put in is among the offers it looks at to find that place. And a success asks the innermost order
what it wrote, which is where the other event may have made a note.

The first place is looked at tick by tick. A book in order is determined by the queues at its ticks
(`eq_of_queue_eq`): removal takes its offer out of the queue, insertion puts the new one at the end
of one queue, and these commute unless two offers are to go to the end of the same queue. The second
place is a set of identifiers, where notes on different offers do not touch each other.

Two writes at one tick come out in the order of their arrival, as they must; that is all they differ
in (`Swapped`).

## Main results

* `queue_remove`, `queue_insert`: the elementary changes, tick by tick.
* `remove_rewrite_comm`, `rewrite_rewrite_comm`, `swapped_rewrite_rewrite`: writes and removals of
  different offers.
* `Nesting.apply_comm`: the nesting does not tell the order of events on different offers.
* `apply_comm_or_swapped`: neither does the state, but for two writes at one tick.
-/

namespace OfferBook

/-- The entry with another gas base. -/
def Entry.withGasbase (e : Entry) (kilo : UInt64) : Entry :=
  { e with detail := { e.detail with kiloGasbase := kilo } }

namespace Book

variable {b b' : Book} {i j : Word} {x y : Entry}

/-! ## The queues of a book -/

/-- The entries at a tick in the order of their arrival. -/
def queue (b : Book) (t : Tick) : List Entry := b.entries.filter fun e => e.tick = t

/-- A book in order is determined by its queues. -/
theorem eq_of_queue_eq (hb : b.Ordered) (hb' : b'.Ordered) (hblock : b.block = b'.block)
    (hnext : b.nextOffer = b'.nextOffer) (h : ∀ t, b.queue t = b'.queue t) : b = b' := by
  have hentries : b.entries = b'.entries := Entry.eq_of_filter_tick hb hb' h
  cases b
  cases b'
  simp_all

theorem queue_remove (h : b.ids.Nodup) (id : Word) (t : Tick) :
    (b.remove id).queue t = (b.queue t).filter fun e => e.id ≠ id := by
  rw [queue, queue, entries_remove h, List.filter_filter, List.filter_filter]
  simp only [Bool.and_comm]

/-- Insertion puts an entry at the end of the queue at its tick. -/
theorem queue_insert (h : b.Ordered) (e : Entry) (t : Tick) :
    (b.insert e).queue t = if e.tick = t then b.queue t ++ [e] else b.queue t := by
  have hsplit : (b.entries.takeWhile fun x => x.tick ≤ e.tick).filter (fun x => x.tick = t) ++
      (b.entries.dropWhile fun x => x.tick ≤ e.tick).filter (fun x => x.tick = t) = b.queue t := by
    rw [← List.filter_append, List.takeWhile_append_dropWhile]
    rfl
  rw [queue, insert, List.filter_append]
  split
  next htick =>
    have hbehind : (b.entries.dropWhile fun x => x.tick ≤ e.tick).filter
        (fun x => x.tick = t) = [] := by
      rw [(takeWhile_tick_eq_filter e.tick h).2, List.filter_filter]
      refine List.filter_eq_nil_iff.mpr fun x _ => ?_
      simp only [Tick.le_def, Bool.and_eq_true, decide_eq_true_eq, not_and]
      rintro hx
      rw [hx, htick]
      omega
    rw [hbehind, List.append_nil] at hsplit
    rw [List.filter_cons_of_pos (by simpa using htick), hsplit, hbehind]
  next htick =>
    rw [List.filter_cons_of_neg (by simpa using htick), hsplit]

/-! ## Removal and insertion in either order -/

theorem remove_comm (h : b.ids.Nodup) (i j : Word) :
    (b.remove i).remove j = (b.remove j).remove i := by
  rw [remove_eq_filter (nodup_remove h i), remove_eq_filter (nodup_remove h j),
    remove_eq_filter h, remove_eq_filter h, List.filter_filter, List.filter_filter]
  simp only [Bool.and_comm]

theorem remove_insert_comm (h : b.Consistent) (x : Entry) (hx : x.id ∉ b.ids) (hi : x.id ≠ i) :
    (b.insert x).remove i = (b.remove i).insert x := by
  refine eq_of_queue_eq (ordered_remove (ordered_insert h.1 x) i)
    (ordered_insert (ordered_remove h.1 i) x) rfl rfl fun t => ?_
  rw [queue_remove (nodup_insert h.2 hx), queue_insert h.1, queue_insert (ordered_remove h.1 i),
    queue_remove h.2]
  split
  · rw [List.filter_append, List.filter_cons_of_pos (by simpa using hi), List.filter_nil]
  · rfl

theorem insert_comm (h : b.Ordered) (htick : x.tick ≠ y.tick) :
    (b.insert x).insert y = (b.insert y).insert x := by
  refine eq_of_queue_eq (ordered_insert (ordered_insert h x) y)
    (ordered_insert (ordered_insert h y) x) rfl rfl fun t => ?_
  rw [queue_insert (ordered_insert h x), queue_insert (ordered_insert h y), queue_insert h,
    queue_insert h]
  by_cases hx : x.tick = t
  · have hy : y.tick ≠ t := fun hy => htick (hx.trans hy.symm)
    rw [if_pos hx, if_neg hy, if_pos hx, if_neg hy]
  · rw [if_neg hx, if_neg hx]

/-- In order, insertion puts an entry between those no worse and the others. -/
theorem entries_insert (h : b.Ordered) (e : Entry) :
    (b.insert e).entries = b.entries.filter (fun x => x.tick ≤ e.tick) ++
      e :: b.entries.filter fun x => ¬ x.tick ≤ e.tick := by
  obtain ⟨htake, hdrop⟩ := takeWhile_tick_eq_filter e.tick h
  rw [insert, htake, hdrop]

/-- The books are the same but for the offers `i` and `j`, which stand next to each other, in the
second book the other way round. -/
def Swapped (i j : Word) (b b' : Book) : Prop :=
  ∃ front x y back, x.id = i ∧ y.id = j ∧ b.entries = front ++ x :: y :: back ∧
    b' = { b with entries := front ++ y :: x :: back }

/-- Two entries at one tick stand in the order in which they were inserted. -/
theorem swapped_insert_insert (h : b.Ordered) (x y : Entry) (htick : x.tick = y.tick) :
    Swapped x.id y.id ((b.insert x).insert y) ((b.insert y).insert x) := by
  have hboth (x y : Entry) (htick : x.tick = y.tick) : ((b.insert x).insert y).entries =
      b.entries.filter (fun e => e.tick ≤ x.tick) ++
        x :: y :: b.entries.filter fun e => ¬ e.tick ≤ x.tick := by
    have hle : x.tick ≤ x.tick := Int.le_refl _
    rw [entries_insert (ordered_insert h x), entries_insert h, ← htick]
    simp [List.filter_append, List.filter_filter, hle]
  refine ⟨_, x, y, _, rfl, rfl, hboth x y htick, ?_⟩
  rw [htick, ← hboth y x htick.symm]
  rfl

/-! ## Writes -/

/-- The gas base that a write of the offer takes over. -/
def takenOver (b : Book) (id : Word) : UInt64 :=
  ((b.find? id).map fun e => e.detail.kiloGasbase).getD defaultKiloGasbase

/-- The book with an entry in the place of the offer of its identifier, whose gas base it takes
over. -/
def rewrite (b : Book) (e : Entry) : Book :=
  (b.remove e.id).insert (e.withGasbase (b.takenOver e.id))

theorem find?_remove (h : b.ids.Nodup) (hij : i ≠ j) : (b.remove j).find? i = b.find? i := by
  refine Option.ext fun e => ?_
  rw [find?_eq_some_iff (nodup_remove h j), find?_eq_some_iff h, mem_entries_remove h]
  grind

theorem find?_insert (h : b.ids.Nodup) (x : Entry) (hx : x.id ∉ b.ids) (hi : x.id ≠ i) :
    (b.insert x).find? i = b.find? i := by
  refine Option.ext fun e => ?_
  rw [find?_eq_some_iff (nodup_insert h hx), find?_eq_some_iff h, mem_entries_insert]
  grind

theorem not_mem_ids_remove (h : b.ids.Nodup) (id : Word) : id ∉ (b.remove id).ids :=
  fun hid => ((mem_ids_remove h).mp hid).2 rfl

theorem remove_rewrite_comm (h : b.Consistent) (hi : x.id ≠ i) :
    (b.rewrite x).remove i = (b.remove i).rewrite x := by
  have hplaced := remove_insert_comm (consistent_remove h x.id)
    (x.withGasbase (b.takenOver x.id)) (not_mem_ids_remove h.2 x.id) hi
  have hgasbase : (b.remove i).takenOver x.id = b.takenOver x.id := by
    rw [takenOver, takenOver, find?_remove h.2 hi]
  rw [rewrite, hplaced, rewrite, hgasbase, remove_comm h.2]

/-- Two writes of different offers put both in, the second one last, each with the gas base it
finds in the first book. -/
theorem rewrite_rewrite (h : b.Consistent) (hne : x.id ≠ y.id) :
    (b.rewrite x).rewrite y = (((b.remove x.id).remove y.id).insert
      (x.withGasbase (b.takenOver x.id))).insert (y.withGasbase (b.takenOver y.id)) := by
  have hfound : (b.rewrite x).find? y.id = b.find? y.id := by
    rw [rewrite, find?_insert (nodup_remove h.2 x.id) (x.withGasbase (b.takenOver x.id))
      (not_mem_ids_remove h.2 x.id) hne, find?_remove h.2 hne.symm]
  have hgasbase : (b.rewrite x).takenOver y.id = b.takenOver y.id := by
    rw [takenOver, takenOver, hfound]
  have hgasbase' : (b.remove y.id).takenOver x.id = b.takenOver x.id := by
    rw [takenOver, takenOver, find?_remove h.2 hne]
  rw [rewrite, hgasbase, remove_rewrite_comm h hne, rewrite, hgasbase', remove_comm h.2]

theorem rewrite_rewrite_comm (h : b.Consistent) (hne : x.id ≠ y.id) (htick : x.tick ≠ y.tick) :
    (b.rewrite x).rewrite y = (b.rewrite y).rewrite x := by
  have hrest : ((b.remove x.id).remove y.id).Ordered := ordered_remove (ordered_remove h.1 _) _
  rw [rewrite_rewrite h hne, rewrite_rewrite h hne.symm, remove_comm h.2 y.id]
  exact insert_comm hrest htick

/-- Two writes at one tick leave the offers next to each other, in the order of the writes. -/
theorem swapped_rewrite_rewrite (h : b.Consistent) (hne : x.id ≠ y.id) (htick : x.tick = y.tick) :
    Swapped x.id y.id ((b.rewrite x).rewrite y) ((b.rewrite y).rewrite x) := by
  have hrest : ((b.remove x.id).remove y.id).Ordered := ordered_remove (ordered_remove h.1 _) _
  rw [rewrite_rewrite h hne, rewrite_rewrite h hne.symm, remove_comm h.2 y.id]
  exact swapped_insert_insert hrest (x.withGasbase (b.takenOver x.id))
    (y.withGasbase (b.takenOver y.id)) htick

end Book

/-! ## The nesting -/

namespace BookEvent

/-- The tick at which an event writes an offer. -/
def writtenTick? : BookEvent → Option Tick
  | offerWrite _ _ tick .. => some tick
  | _ => none

variable {e : BookEvent} {i : Word}

theorem isBracket_of_offerId? (h : e.offerId? = some i) : e.isBracket = false := by
  cases e with
  | orderStart | orderComplete => cases h
  | _ => rfl

/-- An event writes and settles no other offer than the one it is about. -/
theorem written?_settled?_of_ne {id : Word} (h : e.offerId? = some i) (hne : id ≠ i) :
    e.written? ≠ some id ∧ e.settled? ≠ some id := by
  cases e <;> simp_all [offerId?, written?, settled?, eq_comm]

end BookEvent

namespace Nesting

variable {n : Nesting} {e₁ e₂ : BookEvent} {i j : Word}

theorem mem_remember_of_ne {frame : IdSet} {id : Word} (h : e₁.offerId? = some i) (hne : id ≠ i) :
    id ∈ remember frame e₁ ↔ id ∈ frame := by
  obtain ⟨hw, hs⟩ := BookEvent.written?_settled?_of_ne h hne
  rw [mem_remember]
  simp [hw, hs]

/-- Notes on different offers do not touch each other. -/
theorem remember_comm (frame : IdSet) (h₁ : e₁.offerId? = some i) (h₂ : e₂.offerId? = some j)
    (hij : i ≠ j) :
    remember (remember frame e₁) e₂ = remember (remember frame e₂) e₁ := by
  refine IdSet.ext fun id => ?_
  by_cases hi : id = i
  · have hj : id ≠ j := fun hj => hij (hi.symm.trans hj)
    rw [mem_remember_of_ne h₂ hj, mem_remember, mem_remember, mem_remember_of_ne h₂ hj]
  · rw [mem_remember_of_ne h₁ hi, mem_remember (e := e₂), mem_remember (e := e₂),
      mem_remember_of_ne h₁ hi]

/-- The nesting does not tell the order of events on different offers. -/
theorem apply_comm (n : Nesting) (h₁ : e₁.offerId? = some i) (h₂ : e₂.offerId? = some j)
    (hij : i ≠ j) : (n.apply e₁).apply e₂ = (n.apply e₂).apply e₁ := by
  have hb₁ := BookEvent.isBracket_of_offerId? h₁
  have hb₂ := BookEvent.isBracket_of_offerId? h₂
  match n with
  | ⟨[]⟩ =>
      show (idle.apply e₁).apply e₂ = (idle.apply e₂).apply e₁
      rw [apply_idle hb₁, apply_idle hb₂, apply_idle hb₁]
  | ⟨frame :: rest⟩ =>
      rw [apply_cons hb₁, apply_cons hb₂, apply_cons hb₂, apply_cons hb₁,
        remember_comm frame h₁ h₂ hij]

/-- What an event removes does not depend on an event on another offer before it. -/
theorem removed?_apply_of_ne (n : Nesting) (h₁ : e₁.offerId? = some i)
    (h₂ : e₂.offerId? = some j) (hij : i ≠ j) : (n.apply e₁).removed? e₂ = n.removed? e₂ := by
  have hb₁ := BookEvent.isBracket_of_offerId? h₁
  cases e₂ with
  | offerSuccess id =>
      obtain rfl : id = j := Option.some.inj h₂
      match n with
      | ⟨[]⟩ =>
          show (idle.apply e₁).removed? (.offerSuccess id) = _
          rw [apply_idle hb₁]
          rfl
      | ⟨frame :: rest⟩ =>
          have hmem : id ∈ remember frame e₁ ↔ id ∈ frame := mem_remember_of_ne h₁ hij.symm
          rw [apply_cons hb₁]
          by_cases hid : id ∈ frame
          · simp [removed?, settle, hmem, hid]
          · simp [removed?, settle, hmem, hid]
  | _ => rfl

/-! ## The book -/

/-- What an event does to a book, given the orders open before it. -/
def change (n : Nesting) : BookEvent → Book → Book
  | .offerWrite id maker tick gives gasreq gasprice, b =>
      b.write id maker tick gives gasreq gasprice
  | e, b => ((n.removed? e).map b.remove).getD b

theorem change_of_written?_eq_none (n : Nesting) {e : BookEvent} (h : e.written? = none)
    (b : Book) : n.change e b = ((n.removed? e).map b.remove).getD b := by
  cases e with
  | offerWrite => cases h
  | _ => rfl

/-- A success removes its offer, or leaves every book alone. -/
theorem removed?_offerSuccess (n : Nesting) (id : Word) :
    n.removed? (.offerSuccess id) = some id ∨ n.removed? (.offerSuccess id) = none := by
  by_cases hu : (n.settle id).1 = .untouched
  · exact .inl (if_pos hu)
  · exact .inr (if_neg hu)

/-- An event on an offer writes it, removes it, or leaves every book alone. -/
theorem change_cases (n : Nesting) (h : e₁.offerId? = some i) :
    (∃ x : Entry, x.id = i ∧ e₁.writtenTick? = some x.tick ∧
        ∀ b, n.change e₁ b = b.rewrite x) ∨
      e₁.writtenTick? = none ∧ ((∀ b, n.change e₁ b = b.remove i) ∨ ∀ b, n.change e₁ b = b) := by
  cases e₁ with
  | orderStart | orderComplete => cases h
  | offerWrite id maker tick gives gasreq gasprice =>
      obtain rfl : id = i := Option.some.inj h
      exact .inl ⟨⟨id, Offer.written tick gives, ⟨maker, gasreq, 0, gasprice⟩⟩, rfl, rfl,
        fun _ => rfl⟩
  | offerSuccess id =>
      obtain rfl : id = i := Option.some.inj h
      refine .inr ⟨rfl, ?_⟩
      rcases n.removed?_offerSuccess id with hr | hr
      · refine .inl fun b => ?_
        rw [change_of_written?_eq_none n rfl, hr]
        rfl
      · refine .inr fun b => ?_
        rw [change_of_written?_eq_none n rfl, hr]
        rfl
  | offerRetract id | offerFail id | offerSuccessWithPosthookData id
  | offerFailWithPosthookData id =>
      obtain rfl : id = i := Option.some.inj h
      exact .inr ⟨rfl, .inl fun _ => rfl⟩

/-- What an event does to a book does not depend on an event on another offer before it. -/
theorem change_apply_of_ne (n : Nesting) (h₁ : e₁.offerId? = some i) (h₂ : e₂.offerId? = some j)
    (hij : i ≠ j) (b : Book) : (n.apply e₁).change e₂ b = n.change e₂ b := by
  cases hw : e₂.written? with
  | some id =>
      cases e₂ with
      | offerWrite => rfl
      | _ => cases hw
  | none =>
      rw [change_of_written?_eq_none _ hw, change_of_written?_eq_none _ hw,
        removed?_apply_of_ne n h₁ h₂ hij]

/-- Changes on different offers may be made in either order, unless both write at one tick. -/
theorem change_comm (n : Nesting) {b : Book} (h : b.Consistent) (h₁ : e₁.offerId? = some i)
    (h₂ : e₂.offerId? = some j) (hij : i ≠ j)
    (hticks : ∀ t, e₁.writtenTick? = some t → e₂.writtenTick? ≠ some t) :
    n.change e₂ (n.change e₁ b) = n.change e₁ (n.change e₂ b) := by
  rcases n.change_cases h₁ with ⟨x, rfl, htx, hx⟩ | ⟨-, hx | hx⟩
  · rcases n.change_cases h₂ with ⟨y, rfl, hty, hy⟩ | ⟨-, hy | hy⟩
    · have htick : x.tick ≠ y.tick := fun heq => hticks y.tick (heq ▸ htx) hty
      simp only [hx, hy]
      exact Book.rewrite_rewrite_comm h hij htick
    · simp only [hx, hy]
      exact Book.remove_rewrite_comm h hij
    · simp only [hx, hy]
  · rcases n.change_cases h₂ with ⟨y, rfl, -, hy⟩ | ⟨-, hy | hy⟩
    · simp only [hx, hy]
      exact (Book.remove_rewrite_comm h hij.symm).symm
    · simp only [hx, hy]
      exact Book.remove_comm h.2 i j
    · simp only [hx, hy]
  · simp only [hx]

/-- Writes of different offers at one tick leave them next to each other, in the order of the
writes. -/
theorem swapped_change (n : Nesting) {b : Book} {t : Tick} (h : b.Consistent)
    (h₁ : e₁.offerId? = some i) (h₂ : e₂.offerId? = some j) (hij : i ≠ j)
    (ht₁ : e₁.writtenTick? = some t) (ht₂ : e₂.writtenTick? = some t) :
    Book.Swapped i j (n.change e₂ (n.change e₁ b)) (n.change e₁ (n.change e₂ b)) := by
  rcases n.change_cases h₁ with ⟨x, rfl, htx, hx⟩ | ⟨hnone, -⟩
  · rcases n.change_cases h₂ with ⟨y, rfl, hty, hy⟩ | ⟨hnone, -⟩
    · have htick : x.tick = y.tick :=
        Option.some.inj (htx.symm.trans (ht₁.trans (ht₂.symm.trans hty)))
      simp only [hx, hy]
      exact Book.swapped_rewrite_rewrite h hij htick
    · cases ht₂.symm.trans hnone
  · cases ht₁.symm.trans hnone

end Nesting

namespace BookState

variable {s : BookState} {e₁ e₂ : BookEvent} {i j : Word}

theorem book_apply (s : BookState) (e : BookEvent) :
    (s.apply e).value.book = s.nesting.change e s.book := by
  cases hw : e.written? with
  | some id =>
      cases e with
      | offerWrite => rfl
      | _ => cases hw
  | none =>
      rw [Nesting.change_of_written?_eq_none _ hw]
      cases hr : s.nesting.removed? e with
      | some id => exact book_apply_removed hr
      | none => exact book_apply_other hw hr

/-- Two events on different offers change the book one after the other as the nesting before both
has it. -/
theorem book_apply_apply (s : BookState) (h₁ : e₁.offerId? = some i) (h₂ : e₂.offerId? = some j)
    (hij : i ≠ j) : ((s.apply e₁).value.apply e₂).value.book =
      s.nesting.change e₂ (s.nesting.change e₁ s.book) := by
  rw [book_apply, nesting_apply, Nesting.change_apply_of_ne s.nesting h₁ h₂ hij, book_apply]

/-- **Events on different offers commute.** On a consistent book, whatever orders are open, two
events on different offers leave the same nesting in either order, and the same book unless both
write at one tick. If they do, the two books are the same but for the order of these two offers,
which stand next to each other as they were written. -/
theorem apply_comm_or_swapped (h : s.book.Consistent) (h₁ : e₁.offerId? = some i)
    (h₂ : e₂.offerId? = some j) (hij : i ≠ j) :
    let there := ((s.apply e₁).value.apply e₂).value
    let back := ((s.apply e₂).value.apply e₁).value
    there.nesting = back.nesting ∧
      ((∀ t, e₁.writtenTick? = some t → e₂.writtenTick? ≠ some t) → there.book = back.book) ∧
      ∀ t, e₁.writtenTick? = some t → e₂.writtenTick? = some t →
        Book.Swapped i j there.book back.book := by
  intro there back
  have hthere : there.book = s.nesting.change e₂ (s.nesting.change e₁ s.book) :=
    book_apply_apply s h₁ h₂ hij
  have hback : back.book = s.nesting.change e₁ (s.nesting.change e₂ s.book) :=
    book_apply_apply s h₂ h₁ hij.symm
  refine ⟨?_, fun hticks => ?_, fun t ht₁ ht₂ => ?_⟩
  · simp only [there, back, nesting_apply]
    exact s.nesting.apply_comm h₁ h₂ hij
  · rw [hthere, hback]
    exact s.nesting.change_comm h h₁ h₂ hij hticks
  · rw [hthere, hback]
    exact s.nesting.swapped_change h h₁ h₂ hij ht₁ ht₂

/-- During an order that wrote offer 1, that offer is taken and offer 2 rewritten; and offers 1 and
2 are both rewritten at the tick of offer 3. -/
theorem apply_comm_or_swapped_open_order :
    let best : Tick := ⟨-1, by decide, by decide⟩
    let worse : Tick := ⟨3, by decide, by decide⟩
    let entry (id : Word) (tick : Tick) : Entry :=
      ⟨id, .written tick 5, ⟨0xbb, 150000, 300, 3⟩⟩
    let s : BookState := ⟨⟨10, 0, [entry 1 best, entry 2 best, entry 3 worse]⟩,
      Nesting.idle.start.touch 1⟩
    let write (id : Word) : BookEvent := .offerWrite id 0xdd worse 6 100000 2
    s.book.Consistent ∧ (1 : Word) ≠ 2 ∧
      ((s.apply (.offerSuccess 1)).value.apply (write 2)).value.book =
        ((s.apply (write 2)).value.apply (.offerSuccess 1)).value.book ∧
      Book.Swapped 1 2 ((s.apply (write 1)).value.apply (write 2)).value.book
        ((s.apply (write 2)).value.apply (write 1)).value.book := by
  intro best worse entry s write
  have hs : s.book.Consistent := by decide
  have hij : (1 : Word) ≠ 2 := by decide
  have h₁ : BookEvent.offerId? (.offerSuccess 1) = some 1 := rfl
  have hw (id : Word) : (write id).offerId? = some id := rfl
  have h₁t : BookEvent.writtenTick? (.offerSuccess 1) = none := rfl
  have ht (id : Word) : (write id).writtenTick? = some worse := rfl
  obtain ⟨-, htaken, -⟩ := apply_comm_or_swapped hs h₁ (hw 2) hij
  obtain ⟨-, -, hwritten⟩ := apply_comm_or_swapped hs (hw 1) (hw 2) hij
  refine ⟨hs, hij, htaken fun t hsome => ?_, hwritten worse (ht 1) (ht 2)⟩
  cases h₁t.symm.trans hsome

end BookState

end OfferBook
