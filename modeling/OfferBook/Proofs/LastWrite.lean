import Mathlib.Data.List.Induction
import OfferBook.Proofs.Consistency

/-!
# The last write wins

What a sequence of events makes of a book can be said without applying one event. Of every
offer only its last write counts, and whether a removal comes behind it; without a write the
listed offer counts, and whether there is a removal at all. What an event removes depends on the
orders open before it, which the events before it determine (`RemovesAt`).

`LastWriteWins` is the whole description: which offers rest in the book, what their terms are and
in which order they stand. The order is that of price and, at the same tick, of time, where
listed offers that were never written have their places of the listing and written ones the time
of their last write. Only the gas base reaches back behind the last write, since writes do not
carry it: it is that of the listed offer until a removal breaks the chain of writes.

Places are counted from the front, so an event that is added leaves the places of the others
alone, and the proof adds one event after the other.

## Main results

* `lastWriteWins_write`, `lastWriteWins_remove`: what one event does to the description.
* `lastWriteWins_applyAll`: the description fits every consistent book and every sequence of
  events.
-/

namespace OfferBook

variable {first b : Book} {events : List BookEvent} {e : BookEvent} {id other : Word} {k : Nat}

/-! ## Writes and removals -/

/-- The event at this place writes the offer. -/
def WritesAt (events : List BookEvent) (k : Nat) (id : Word) : Prop :=
  events[k]?.bind BookEvent.written? = some id

/-- The event at this place removes the offer, given the orders that are open there. -/
def RemovesAt (events : List BookEvent) (k : Nat) (id : Word) : Prop :=
  events[k]?.bind (Nesting.idle.applyAll (events.take k)).removed? = some id

instance : Decidable (WritesAt events k id) := inferInstanceAs (Decidable (_ = _))

instance : Decidable (RemovesAt events k id) := inferInstanceAs (Decidable (_ = _))

/-- No event writes the offer. -/
def Unwritten (events : List BookEvent) (id : Word) : Prop := ∀ k, ¬ WritesAt events k id

/-- The event at this place writes the offer, and no later one does. -/
structure LastWriteAt (events : List BookEvent) (id : Word) (k : Nat) : Prop where
  writes : WritesAt events k id
  last : ∀ j, k < j → ¬ WritesAt events j id

private theorem lt_of_bind_getElem? {f : BookEvent → Option Word}
    (h : events[k]?.bind f = some id) : k < events.length := by
  by_cases hk : k < events.length
  · exact hk
  · rw [List.getElem?_eq_none (by omega)] at h
    cases h

theorem WritesAt.lt (h : WritesAt events k id) : k < events.length := lt_of_bind_getElem? h

theorem RemovesAt.lt (h : RemovesAt events k id) : k < events.length := lt_of_bind_getElem? h

private theorem bind_getElem?_concat {f : BookEvent → Option Word} :
    (events ++ [e])[k]?.bind f = some id ↔
      events[k]?.bind f = some id ∨ k = events.length ∧ f e = some id := by
  rcases Nat.lt_trichotomy k events.length with hk | rfl | hk
  · have hne : k ≠ events.length := by omega
    rw [List.getElem?_append_left hk]
    simp [hne]
  · simp
  · have hne : k ≠ events.length := by omega
    rw [List.getElem?_eq_none (by simp; omega), List.getElem?_eq_none (by omega)]
    simp [hne]

/-- A write in a longer sequence is a write before or the event that was added. -/
theorem writesAt_concat :
    WritesAt (events ++ [e]) k id ↔
      WritesAt events k id ∨ k = events.length ∧ e.written? = some id :=
  bind_getElem?_concat

/-- A removal in a longer sequence is a removal before or the event that was added. -/
theorem removesAt_concat :
    RemovesAt (events ++ [e]) k id ↔ RemovesAt events k id ∨
      k = events.length ∧ (Nesting.idle.applyAll events).removed? e = some id := by
  unfold RemovesAt
  rw [bind_getElem?_concat]
  refine or_congr ?_ (and_congr_right ?_)
  · by_cases hk : k ≤ events.length
    · rw [List.take_append_of_le_length hk]
    · rw [List.getElem?_eq_none (by omega)]
      rfl
  · rintro rfl
    rw [List.take_left]

/-- An event that does not write the offer leaves its writes as they are. -/
theorem writesAt_concat_of_ne (h : e.written? ≠ some id) :
    WritesAt (events ++ [e]) k id ↔ WritesAt events k id := by
  rw [writesAt_concat]
  simp [h]

theorem unwritten_concat_of_ne (h : e.written? ≠ some id) :
    Unwritten (events ++ [e]) id ↔ Unwritten events id :=
  forall_congr' fun _ => not_congr (writesAt_concat_of_ne h)

theorem lastWriteAt_concat_of_ne (h : e.written? ≠ some id) :
    LastWriteAt (events ++ [e]) id k ↔ LastWriteAt events id k := by
  constructor
  · intro hlast
    exact ⟨(writesAt_concat_of_ne h).mp hlast.writes, fun j hj hw =>
      hlast.last j hj ((writesAt_concat_of_ne h).mpr hw)⟩
  · intro hlast
    exact ⟨(writesAt_concat_of_ne h).mpr hlast.writes, fun j hj hw =>
      hlast.last j hj ((writesAt_concat_of_ne h).mp hw)⟩

/-- An event that writes the offer is its last write. -/
theorem lastWriteAt_concat_self (h : e.written? = some id) :
    LastWriteAt (events ++ [e]) id k ↔ k = events.length := by
  have hwrites : WritesAt (events ++ [e]) events.length id := writesAt_concat.mpr (.inr ⟨rfl, h⟩)
  constructor
  · intro hlast
    have hlt := hlast.writes.lt
    rw [List.length_append, List.length_singleton] at hlt
    by_cases hk : k < events.length
    · exact absurd hwrites (hlast.last _ hk)
    · omega
  · rintro rfl
    refine ⟨hwrites, fun j hj hw => ?_⟩
    have hlt := hw.lt
    rw [List.length_append, List.length_singleton] at hlt
    omega

theorem LastWriteAt.unique {j : Nat} (hj : LastWriteAt events id j) (hk : LastWriteAt events id k) :
    j = k := by
  have hjk : ¬ j < k := fun hlt => hj.last k hlt hk.writes
  have hkj : ¬ k < j := fun hlt => hk.last j hlt hj.writes
  omega

/-- No place both writes an offer and removes one. -/
theorem not_removesAt_of_writesAt (h : WritesAt events k id) : ¬ RemovesAt events k other := by
  intro hremoves
  obtain ⟨e, he, hw⟩ := Option.bind_eq_some_iff.mp h
  obtain ⟨e', he', hr⟩ := Option.bind_eq_some_iff.mp hremoves
  obtain rfl : e = e' := Option.some.inj (he.symm.trans he')
  rw [Nesting.written?_of_removed? hr] at hw
  cases hw

/-- An offer is never written, or there is a last write. -/
theorem unwritten_or_lastWriteAt (events : List BookEvent) (id : Word) :
    Unwritten events id ∨ ∃ k, LastWriteAt events id k := by
  induction events using List.reverseRecOn with
  | nil => exact .inl fun k hw => absurd hw.lt (Nat.not_lt_zero k)
  | append_singleton events e ih =>
      by_cases h : e.written? = some id
      · exact .inr ⟨_, (lastWriteAt_concat_self h).mpr rfl⟩
      · rcases ih with hunwritten | ⟨k, hlast⟩
        · exact .inl ((unwritten_concat_of_ne h).mpr hunwritten)
        · exact .inr ⟨k, (lastWriteAt_concat_of_ne h).mpr hlast⟩

/-! ## The description -/

/-- The offer is listed or written, and no removal of it comes behind its last write; none at all,
if it is never written. -/
def Rests (first : Book) (events : List BookEvent) (id : Word) : Prop :=
  (id ∈ first.ids ∨ ∃ k, WritesAt events k id) ∧
    ¬ ∃ j, RemovesAt events j id ∧ ∀ k, LastWriteAt events id k → k < j

/-- The gas base of an offer written at this place: that of the listed offer as long as it was not
removed. -/
def gasbaseAt (first : Book) (events : List BookEvent) (id : Word) (k : Nat) : UInt64 :=
  if ∃ j < k, RemovesAt events j id then defaultKiloGasbase
  else ((first.find? id).map fun x => x.detail.kiloGasbase).getD defaultKiloGasbase

/-- An entry has the terms of its last write and no neighbours, or is as it was listed. -/
structure Accounted (first : Book) (events : List BookEvent) (x : Entry) : Prop where
  listed : Unwritten events x.id → x ∈ first.entries
  written : ∀ k, LastWriteAt events x.id k →
    events[k]? = some (.offerWrite x.id x.detail.maker x.tick x.offer.gives x.detail.gasreq
        x.detail.gasprice) ∧
      x.offer.prev = none ∧ x.offer.next = none ∧
      x.detail.kiloGasbase = gasbaseAt first events x.id k

/-- Which of two offers came first. -/
inductive CameBefore (first : Book) (events : List BookEvent) (a b : Word) : Prop where
  /-- Neither was written, and they are listed in this order. -/
  | listed : Unwritten events a → Unwritten events b → [a, b].Sublist first.ids →
      CameBefore first events a b
  /-- Only the second was written. -/
  | listedFirst {k : Nat} : Unwritten events a → LastWriteAt events b k →
      CameBefore first events a b
  /-- Both were written, the first one before. -/
  | writtenFirst {j k : Nat} : LastWriteAt events a j → LastWriteAt events b k → j < k →
      CameBefore first events a b

/-- An entry stands before another by price, or at the same price by time. -/
def Precedes (first : Book) (events : List BookEvent) (x y : Entry) : Prop :=
  x.tick < y.tick ∨ x.tick = y.tick ∧ CameBefore first events x.id y.id

/-- At no worse a price the one that came first stands first. -/
theorem precedes_of_le {x y : Entry} (htick : x.tick ≤ y.tick)
    (hbefore : CameBefore first events x.id y.id) : Precedes first events x y := by
  rw [Tick.le_def] at htick
  by_cases hlt : x.tick < y.tick
  · left
    exact hlt
  · right
    rw [Tick.lt_def] at hlt
    have hval : x.tick.val = y.tick.val := by omega
    exact ⟨Tick.ext hval, hbefore⟩

/-- The book is what the events make of the first one, said without applying them. -/
structure LastWriteWins (first : Book) (events : List BookEvent) (b : Book) : Prop where
  block : b.block = first.block
  nextOffer : b.nextOffer = first.nextOffer
  mem_ids : ∀ id, id ∈ b.ids ↔ Rests first events id
  accounted : ∀ x ∈ b.entries, Accounted first events x
  ranked : b.entries.Pairwise (Precedes first events)

/-- A listed offer that nothing removes rests. -/
theorem rests_of_listed (hid : id ∈ first.ids) (hkept : ∀ j, ¬ RemovesAt events j id) :
    Rests first events id := by
  refine ⟨.inl hid, ?_⟩
  rintro ⟨j, hremoves, -⟩
  exact hkept j hremoves

/-- Nothing removes an offer that rests without a write. -/
theorem Rests.not_removesAt (h : Rests first events id) (hunwritten : Unwritten events id)
    (j : Nat) : ¬ RemovesAt events j id := by
  intro hremoves
  refine h.2 ⟨j, hremoves, ?_⟩
  intro k hlast
  exact absurd hlast.writes (hunwritten k)

/-- Whatever removes an offer that rests comes before its last write. -/
theorem Rests.lt_of_removesAt {j : Nat} (h : Rests first events id)
    (hlast : LastWriteAt events id k) (hremoves : RemovesAt events j id) : j < k := by
  have hne : j ≠ k := by
    rintro rfl
    exact not_removesAt_of_writesAt hlast.writes hremoves
  have hnot : ¬ k < j := by
    intro hlt
    refine h.2 ⟨j, hremoves, ?_⟩
    intro i hi
    rw [hi.unique hlast]
    exact hlt
  omega

/-! ## What an event does to the description -/

/-- Whether an offer rests is not affected by events that neither write nor remove it. -/
theorem rests_concat_of_ne (hw : e.written? ≠ some id)
    (hr : (Nesting.idle.applyAll events).removed? e ≠ some id) :
    Rests first (events ++ [e]) id ↔ Rests first events id := by
  simp only [Rests, writesAt_concat_of_ne hw, lastWriteAt_concat_of_ne hw, removesAt_concat, hr,
    and_false, or_false]

/-- An offer that was just written rests. -/
theorem rests_concat_written (hw : e.written? = some id) : Rests first (events ++ [e]) id := by
  refine ⟨.inr ⟨events.length, writesAt_concat.mpr (.inr ⟨rfl, hw⟩)⟩, ?_⟩
  rintro ⟨j, hremoves, hbehind⟩
  have hlt := hremoves.lt
  have hlast := hbehind events.length ((lastWriteAt_concat_self hw).mpr rfl)
  rw [List.length_append, List.length_singleton] at hlt
  omega

/-- An offer that was just removed does not rest. -/
theorem not_rests_concat_removed (hr : (Nesting.idle.applyAll events).removed? e = some id) :
    ¬ Rests first (events ++ [e]) id := by
  rintro ⟨-, hkept⟩
  have hw : e.written? ≠ some id := by
    rw [Nesting.written?_of_removed? hr]
    exact Option.some_ne_none id ∘ Eq.symm
  refine hkept ⟨events.length, removesAt_concat.mpr (.inr ⟨rfl, hr⟩), fun k hlast => ?_⟩
  exact ((lastWriteAt_concat_of_ne hw).mp hlast).writes.lt

/-- What comes later does not change the gas base at a place. -/
theorem gasbaseAt_concat (hk : k ≤ events.length) :
    gasbaseAt first (events ++ [e]) id k = gasbaseAt first events id k := by
  have hremoves : (∃ j < k, RemovesAt (events ++ [e]) j id) ↔ ∃ j < k, RemovesAt events j id := by
    refine exists_congr fun j => and_congr_right fun hj => ?_
    rw [removesAt_concat]
    have hne : j ≠ events.length := by omega
    simp [hne]
  simp only [gasbaseAt, hremoves]

/-- Other events leave an entry accounted for. -/
theorem accounted_concat_of_ne {x : Entry} (hw : e.written? ≠ some x.id)
    (h : Accounted first events x) : Accounted first (events ++ [e]) x where
  listed := fun hunwritten => h.listed ((unwritten_concat_of_ne hw).mp hunwritten)
  written := by
    intro k hlast
    have hlast := (lastWriteAt_concat_of_ne hw).mp hlast
    have hk := hlast.writes.lt
    obtain ⟨hevent, hprev, hnext, hkilo⟩ := h.written k hlast
    rw [List.getElem?_append_left hk, gasbaseAt_concat (Nat.le_of_lt hk)]
    exact ⟨hevent, hprev, hnext, hkilo⟩

/-- Other events leave two entries in their order. -/
theorem precedes_concat_of_ne {x y : Entry} (hx : e.written? ≠ some x.id)
    (hy : e.written? ≠ some y.id) (h : Precedes first events x y) :
    Precedes first (events ++ [e]) x y := by
  refine h.imp_right fun ⟨htick, hbefore⟩ => ⟨htick, ?_⟩
  cases hbefore with
  | listed ha hb hlisted =>
      exact .listed ((unwritten_concat_of_ne hx).mpr ha) ((unwritten_concat_of_ne hy).mpr hb)
        hlisted
  | listedFirst ha hb =>
      exact .listedFirst ((unwritten_concat_of_ne hx).mpr ha) ((lastWriteAt_concat_of_ne hy).mpr hb)
  | writtenFirst ha hb hlt =>
      exact .writtenFirst ((lastWriteAt_concat_of_ne hx).mpr ha)
        ((lastWriteAt_concat_of_ne hy).mpr hb) hlt

/-- The gas base that a write takes over from the book is the one the description gives it. -/
theorem gasbase_of_lastWriteWins (hfirst : first.ids.Nodup) (hb : b.ids.Nodup)
    (h : LastWriteWins first events b) (id : Word) :
    ((b.find? id).map fun x => x.detail.kiloGasbase).getD defaultKiloGasbase =
      gasbaseAt first events id events.length := by
  cases hfind : b.find? id with
  | none =>
      have hrests : ¬ Rests first events id := by
        rw [← h.mem_ids id]
        exact Book.find?_eq_none_iff.mp hfind
      by_cases hremoved : ∃ j < events.length, RemovesAt events j id
      · rw [gasbaseAt, if_pos hremoved]
        rfl
      · have hkept : ∀ j, ¬ RemovesAt events j id := fun j hremoves =>
          hremoved ⟨j, hremoves.lt, hremoves⟩
        have hlisted : id ∉ first.ids := fun hid => hrests (rests_of_listed hid hkept)
        rw [gasbaseAt, if_neg hremoved, Book.find?_eq_none_iff.mpr hlisted]
  | some x =>
      obtain ⟨hmem, rfl⟩ := (Book.find?_eq_some_iff hb).mp hfind
      have haccounted := h.accounted x hmem
      have hrests := (h.mem_ids x.id).mp (Book.mem_ids.mpr ⟨x, hmem, rfl⟩)
      rw [Option.map_some, Option.getD_some]
      rcases unwritten_or_lastWriteAt events x.id with hunwritten | ⟨k, hlast⟩
      · have hkept : ¬ ∃ j < events.length, RemovesAt events j x.id := by
          rintro ⟨j, -, hremoves⟩
          exact hrests.not_removesAt hunwritten j hremoves
        have hlisted := (Book.find?_eq_some_iff hfirst).mpr ⟨haccounted.listed hunwritten, rfl⟩
        rw [gasbaseAt, if_neg hkept, hlisted]
        rfl
      · have hsame : (∃ j < k, RemovesAt events j x.id) ↔
            ∃ j < events.length, RemovesAt events j x.id := by
          constructor
          · rintro ⟨j, -, hremoves⟩
            exact ⟨j, hremoves.lt, hremoves⟩
          · rintro ⟨j, -, hremoves⟩
            exact ⟨j, hrests.lt_of_removesAt hlast hremoves, hremoves⟩
        obtain ⟨-, -, -, hkilo⟩ := haccounted.written k hlast
        rw [hkilo]
        simp only [gasbaseAt, hsame]

/-- An event that does not touch the book fits in. -/
theorem lastWriteWins_other (h : LastWriteWins first events b) (hw : e.written? = none)
    (hr : (Nesting.idle.applyAll events).removed? e = none) :
    LastWriteWins first (events ++ [e]) b where
  block := h.block
  nextOffer := h.nextOffer
  mem_ids := by
    intro id
    rw [rests_concat_of_ne (by simp [hw]) (by simp [hr])]
    exact h.mem_ids id
  accounted := fun x hx => accounted_concat_of_ne (by simp [hw]) (h.accounted x hx)
  ranked := h.ranked.imp fun hxy => precedes_concat_of_ne (by simp [hw]) (by simp [hw]) hxy

/-- A removal fits in. -/
theorem lastWriteWins_remove (h : LastWriteWins first events b) (hb : b.ids.Nodup)
    (hr : (Nesting.idle.applyAll events).removed? e = some id) :
    LastWriteWins first (events ++ [e]) (b.remove id) := by
  have hw : e.written? = none := Nesting.written?_of_removed? hr
  refine
    { block := h.block
      nextOffer := h.nextOffer
      mem_ids := ?_
      accounted := ?_
      ranked := ?_ }
  · intro other
    rw [Book.mem_ids_remove hb]
    by_cases hid : other = id
    · subst hid
      exact iff_of_false (fun hmem => hmem.2 rfl) (not_rests_concat_removed hr)
    · have hne : some id ≠ some other := fun heq => hid (Option.some.inj heq).symm
      rw [rests_concat_of_ne (by simp [hw]) (hr ▸ hne), ← h.mem_ids other]
      exact and_iff_left hid
  · intro x hx
    have hkept : x ∈ b.entries := ((Book.mem_entries_remove hb).mp hx).1
    exact accounted_concat_of_ne (by simp [hw]) (h.accounted x hkept)
  · have hkept : (b.remove id).entries.Pairwise (Precedes first events) :=
      h.ranked.sublist List.eraseP_sublist
    refine hkept.imp ?_
    intro x y hxy
    exact precedes_concat_of_ne (by simp [hw]) (by simp [hw]) hxy

/-- The entry that a write puts into the book. -/
private theorem accounted_written {maker : Address} {tick : Tick} {gives : Word}
    {gasreq gasprice : UInt64} :
    Accounted first (events ++ [.offerWrite id maker tick gives gasreq gasprice])
      ⟨id, Offer.written tick gives,
        ⟨maker, gasreq, gasbaseAt first events id events.length, gasprice⟩⟩ where
  listed := by
    intro hunwritten
    exact absurd (writesAt_concat.mpr (.inr ⟨rfl, rfl⟩)) (hunwritten events.length)
  written := by
    intro k hlast
    obtain rfl := (lastWriteAt_concat_self rfl).mp hlast
    rw [List.getElem?_concat_length, gasbaseAt_concat (Nat.le_refl _)]
    exact ⟨rfl, rfl, rfl, rfl⟩

/-- Whatever is in the book came before what was just written. -/
private theorem cameBefore_written (hw : e.written? = some id) (hother : other ≠ id) :
    CameBefore first (events ++ [e]) other id := by
  have hne : e.written? ≠ some other := by
    rw [hw]
    exact fun heq => hother (Option.some.inj heq).symm
  have hlast : LastWriteAt (events ++ [e]) id events.length := (lastWriteAt_concat_self hw).mpr rfl
  rcases unwritten_or_lastWriteAt events other with hunwritten | ⟨k, hk⟩
  · exact .listedFirst ((unwritten_concat_of_ne hne).mpr hunwritten) hlast
  · exact .writtenFirst ((lastWriteAt_concat_of_ne hne).mpr hk) hlast hk.writes.lt

/-- A write fits in. -/
theorem lastWriteWins_write (h : LastWriteWins first events b) (hfirst : first.ids.Nodup)
    (hb : b.Consistent) (maker : Address) (tick : Tick) (gives : Word)
    (gasreq gasprice : UInt64) :
    LastWriteWins first (events ++ [.offerWrite id maker tick gives gasreq gasprice])
      (b.write id maker tick gives gasreq gasprice) := by
  have hwrite : (BookEvent.offerWrite id maker tick gives gasreq gasprice).written? = some id := rfl
  have hnone : (Nesting.idle.applyAll events).removed?
      (.offerWrite id maker tick gives gasreq gasprice) = none := rfl
  have hne : ∀ x ∈ (b.remove id).entries,
      (BookEvent.offerWrite id maker tick gives gasreq gasprice).written? ≠ some x.id := by
    intro x hx heq
    exact ((Book.mem_entries_remove hb.2).mp hx).2 (Option.some.inj heq).symm
  -- The entry that is inserted, its gas base in the terms of the description.
  obtain ⟨new, hnew⟩ : ∃ new : Entry, new = ⟨id, Offer.written tick gives,
      ⟨maker, gasreq, gasbaseAt first events id events.length, gasprice⟩⟩ := ⟨_, rfl⟩
  have hid : new.id = id := by rw [hnew]
  have hbook : b.write id maker tick gives gasreq gasprice = (b.remove id).insert new := by
    rw [hnew, ← gasbase_of_lastWriteWins hfirst hb.2 h id]
    rfl
  rw [hbook]
  refine
    { block := h.block
      nextOffer := h.nextOffer
      mem_ids := ?_
      accounted := ?_
      ranked := ?_ }
  · intro other
    rw [Book.mem_ids_insert, Book.mem_ids_remove hb.2, hid]
    by_cases hother : other = id
    · exact iff_of_true (.inl hother) (rests_concat_written (hother ▸ hwrite))
    · have hne : some id ≠ some other := fun heq => hother (Option.some.inj heq).symm
      rw [rests_concat_of_ne (hwrite ▸ hne) (by simp [hnone]), ← h.mem_ids other]
      simp [hother]
  · intro x hx
    rcases Book.mem_entries_insert.mp hx with rfl | hx
    · rw [hnew]
      exact accounted_written
    · have hkept : x ∈ b.entries := ((Book.mem_entries_remove hb.2).mp hx).1
      exact accounted_concat_of_ne (hne x hx) (h.accounted x hkept)
  · refine Book.pairwise_insert (Book.ordered_remove hb.1 id) ?_ ?_ ?_
    · have hkept : (b.remove id).entries.Pairwise (Precedes first events) :=
        h.ranked.sublist List.eraseP_sublist
      refine hkept.imp_of_mem ?_
      intro x y hx hy hxy
      exact precedes_concat_of_ne (hne x hx) (hne y hy) hxy
    · intro x hx hle
      have hother : x.id ≠ id := ((Book.mem_entries_remove hb.2).mp hx).2
      have hbefore : CameBefore first
          (events ++ [.offerWrite id maker tick gives gasreq gasprice]) x.id new.id := by
        rw [hid]
        exact cameBefore_written hwrite hother
      exact precedes_of_le hle hbefore
    · intro x hx hlt
      left
      rw [Tick.le_def] at hlt
      rw [Tick.lt_def]
      omega

/-- Without an event every consistent book fits its own description. -/
theorem lastWriteWins_nil (h : first.Ordered) : LastWriteWins first [] first where
  block := rfl
  nextOffer := rfl
  mem_ids := by
    intro id
    constructor
    · intro hid
      exact rests_of_listed hid fun j hremoves => absurd hremoves.lt (Nat.not_lt_zero j)
    · rintro ⟨hid | ⟨k, hwrites⟩, -⟩
      · exact hid
      · exact absurd hwrites.lt (Nat.not_lt_zero k)
  accounted := fun x hx =>
    ⟨fun _ => hx, fun k hlast => absurd hlast.writes.lt (Nat.not_lt_zero k)⟩
  ranked := by
    have hunwritten : ∀ id, Unwritten [] id := fun id k hwrites =>
      absurd hwrites.lt (Nat.not_lt_zero k)
    refine List.pairwise_iff_forall_sublist.mpr ?_
    intro x y hxy
    have htick := List.pairwise_iff_forall_sublist.mp h hxy
    exact precedes_of_le htick
      (.listed (hunwritten x.id) (hunwritten y.id) (hxy.map Entry.id))

/-- **The last write wins.** What a sequence of events makes of a consistent book is described by
the last write and the removals of each offer alone: who rests in the book, on which terms, and in
which order. -/
theorem lastWriteWins_applyAll (h : first.Consistent) (events : List BookEvent) :
    LastWriteWins first events (BookState.applyAll ⟨first, .idle⟩ events).book := by
  induction events using List.reverseRecOn with
  | nil => exact lastWriteWins_nil h.1
  | append_singleton events e ih =>
      have hb : (BookState.applyAll ⟨first, .idle⟩ events).book.Consistent :=
        BookState.consistent_applyAll h events
      have hnesting := BookState.nesting_applyAll ⟨first, .idle⟩ events
      rw [BookState.applyAll_concat]
      cases hw : e.written? with
      | some id =>
          obtain ⟨maker, tick, gives, gasreq, gasprice, rfl⟩ :=
            BookEvent.eq_offerWrite_of_written? hw
          exact lastWriteWins_write ih h.2 hb maker tick gives gasreq gasprice
      | none =>
          cases hr : (Nesting.idle.applyAll events).removed? e with
          | some id =>
              rw [BookState.book_apply_removed (hnesting ▸ hr)]
              exact lastWriteWins_remove ih hb.2 hr
          | none =>
              rw [BookState.book_apply_other hw (hnesting ▸ hr)]
              exact lastWriteWins_other ih hw hr

/-- During an order a listed offer is rewritten and taken, which keeps it with its gas base, and
another is taken, which removes it. That one is written again, at the same price but later, and so
stands behind the first. -/
theorem lastWriteWins_rewritten_tie :
    let best : Tick := ⟨-1, by decide, by decide⟩
    let worse : Tick := ⟨3, by decide, by decide⟩
    let first : Book := ⟨10, 0,
      [⟨1, ⟨best, 5, none, some 2⟩, ⟨0xbb, 150000, 300, 3⟩⟩,
        ⟨2, ⟨worse, 7, some 1, some 3⟩, ⟨0xbb, 150000, 300, 3⟩⟩,
        ⟨3, ⟨worse, 9, some 2, none⟩, ⟨0xbb, 150000, 300, 3⟩⟩]⟩
    let events : List BookEvent :=
      [.orderStart, .offerWrite 2 0xdd worse 6 100000 2, .offerSuccess 2, .offerSuccess 1,
        .orderComplete, .offerWrite 1 0xee worse 4 90000 2]
    first.Consistent ∧ LastWriteWins first events ⟨10, 0,
      [⟨3, ⟨worse, 9, some 2, none⟩, ⟨0xbb, 150000, 300, 3⟩⟩,
        ⟨2, ⟨worse, 6, none, none⟩, ⟨0xdd, 100000, 300, 2⟩⟩,
        ⟨1, ⟨worse, 4, none, none⟩, ⟨0xee, 90000, 250, 2⟩⟩]⟩ := by
  intro best worse first events
  have hfirst : first.Consistent := by decide
  have hlast := lastWriteWins_applyAll hfirst events
  have hbook : (BookState.applyAll ⟨first, .idle⟩ events).book = ⟨10, 0,
      [⟨3, ⟨worse, 9, some 2, none⟩, ⟨0xbb, 150000, 300, 3⟩⟩,
        ⟨2, ⟨worse, 6, none, none⟩, ⟨0xdd, 100000, 300, 2⟩⟩,
        ⟨1, ⟨worse, 4, none, none⟩, ⟨0xee, 90000, 250, 2⟩⟩]⟩ := by
    decide +kernel
  rw [hbook] at hlast
  exact ⟨hfirst, hlast⟩

/-! ## Nothing is left open -/

private theorem pair_sublist_asymm {ids : List Word} {a c : Word} (h : ids.Nodup)
    (hac : [a, c].Sublist ids) : ¬ [c, a].Sublist ids := by
  induction ids with
  | nil => cases hac
  | cons x rest ih =>
      obtain ⟨hx, hrest⟩ := List.nodup_cons.mp h
      intro hca
      cases hac with
      | cons _ hac =>
          cases hca with
          | cons _ hca => exact ih hrest hac hca
          | cons_cons _ hca => exact hx (hac.subset (by simp))
      | cons_cons _ hc =>
          cases hca with
          | cons _ hca => exact hx (hca.subset (by simp))
          | cons_cons _ _ => exact hx (hc.subset (by simp))

/-- Of two offers only one came before the other. -/
private theorem cameBefore_asymm {a c : Word} (hfirst : first.ids.Nodup)
    (h : CameBefore first events a c) : ¬ CameBefore first events c a := by
  intro hback
  cases h with
  | listed ha hc hac =>
      cases hback with
      | listed _ _ hca => exact pair_sublist_asymm hfirst hac hca
      | listedFirst _ hlast => exact ha _ hlast.writes
      | writtenFirst hlast _ _ => exact hc _ hlast.writes
  | listedFirst ha hc =>
      cases hback with
      | listed hc' _ _ => exact hc' _ hc.writes
      | listedFirst hc' _ => exact hc' _ hc.writes
      | writtenFirst _ ha' _ => exact ha _ ha'.writes
  | writtenFirst ha hc hlt =>
      cases hback with
      | listed hc' _ _ => exact hc' _ hc.writes
      | listedFirst hc' _ => exact hc' _ hc.writes
      | writtenFirst hc' ha' hlt' =>
          have hj := ha.unique ha'
          have hk := hc.unique hc'
          omega

private theorem precedes_asymm {x y : Entry} (hfirst : first.ids.Nodup)
    (h : Precedes first events x y) : ¬ Precedes first events y x := by
  intro hback
  rcases h with hlt | ⟨heq, hbefore⟩
  · rcases hback with hlt' | ⟨heq', -⟩
    · rw [Tick.lt_def] at hlt hlt'
      omega
    · rw [heq', Tick.lt_def] at hlt
      omega
  · rcases hback with hlt' | ⟨-, hbefore'⟩
    · rw [heq, Tick.lt_def] at hlt'
      omega
    · exact cameBefore_asymm hfirst hbefore hbefore'

/-- Two entries of one offer that are both accounted for are the same. -/
private theorem eq_of_accounted {x y : Entry} (hfirst : first.ids.Nodup)
    (hx : Accounted first events x) (hy : Accounted first events y) (hid : x.id = y.id) :
    x = y := by
  rcases unwritten_or_lastWriteAt events x.id with hunwritten | ⟨k, hlast⟩
  · exact List.inj_on_of_nodup_map hfirst (hx.listed hunwritten)
      (hy.listed (hid ▸ hunwritten)) hid
  · obtain ⟨hxevent, hxprev, hxnext, hxkilo⟩ := hx.written k hlast
    obtain ⟨hyevent, hyprev, hynext, hykilo⟩ := hy.written k (hid ▸ hlast)
    have hevent := Option.some.inj (hxevent.symm.trans hyevent)
    obtain ⟨idx, ⟨tick, gives, prev, next⟩, ⟨maker, gasreq, kilo, gasprice⟩⟩ := x
    obtain ⟨idy, ⟨tick', gives', prev', next'⟩, ⟨maker', gasreq', kilo', gasprice'⟩⟩ := y
    simp only [Entry.tick, BookEvent.offerWrite.injEq] at *
    obtain ⟨rfl, rfl, rfl, rfl, rfl, rfl⟩ := hevent
    rw [hxprev, hxnext, hxkilo, hyprev, hynext, hykilo]

/-- No two books fit the description. -/
theorem lastWriteWins_unique {c : Book} (hfirst : first.ids.Nodup)
    (hb : LastWriteWins first events b) (hc : LastWriteWins first events c) : b = c := by
  have hnodup : ∀ d : Book, LastWriteWins first events d → d.entries.Nodup := by
    intro d hd
    refine List.Pairwise.imp ?_ hd.ranked
    rintro x y hxy rfl
    exact precedes_asymm hfirst hxy hxy
  have hsub : ∀ d d' : Book, LastWriteWins first events d → LastWriteWins first events d' →
      ∀ x ∈ d.entries, x ∈ d'.entries := by
    intro d d' hd hd' x hx
    have hrests := (hd.mem_ids x.id).mp (Book.mem_ids.mpr ⟨x, hx, rfl⟩)
    obtain ⟨y, hy, hid⟩ := Book.mem_ids.mp ((hd'.mem_ids x.id).mpr hrests)
    rw [eq_of_accounted hfirst (hd.accounted x hx) (hd'.accounted y hy) hid.symm]
    exact hy
  have hperm : b.entries.Perm c.entries :=
    (List.perm_ext_iff_of_nodup (hnodup b hb) (hnodup c hc)).mpr fun x =>
      ⟨hsub b c hb hc x, hsub c b hc hb x⟩
  have hentries : b.entries = c.entries :=
    hperm.eq_of_pairwise (fun x y _ _ hxy hyx => absurd hyx (precedes_asymm hfirst hxy))
      hb.ranked hc.ranked
  obtain ⟨block, nextOffer, entries⟩ := b
  obtain ⟨block', nextOffer', entries'⟩ := c
  obtain rfl : block = block' := hb.block.trans hc.block.symm
  obtain rfl : nextOffer = nextOffer' := hb.nextOffer.trans hc.nextOffer.symm
  obtain rfl : entries = entries' := hentries
  rfl

end OfferBook
