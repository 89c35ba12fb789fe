import OfferBook.Contract.OfferList
import OfferBook.Fault
import OfferBook.Tick

/-!
# Books

A book is the state of one market at one block: its resting offers, best price first, offers at
the same tick in the order of their arrival. An offer, its identifier and its execution details
are one entry, so the three can never come apart.

A book arises in two ways. `ofOfferList` takes the reader contract's answer, whose columns must
agree in length and whose ticks must be in range; it puts the entries in order of their ticks and
keeps the contract's order among equal ticks. From then on single offers are removed (`remove`)
and put behind all offers of the same or a better tick (`insert`).

Main results:

* `pairwise_sort`, `perm_sort`: the entries of a fetched book are the listed ones, in order;
* `perm_insert`: insertion adds one entry and keeps the rest;
* `ordered_remove`, `ordered_insert`: both changes keep a book in order.
-/

namespace OfferBook

/-- The terms of a resting offer. The neighbours are known for fetched offers only. -/
structure Offer where
  tick : Tick
  gives : Word
  prev : Option Word
  next : Option Word
  deriving DecidableEq

/-- What executing an offer takes. -/
structure OfferDetail where
  maker : Address
  gasreq : UInt64
  kiloGasbase : UInt64
  gasprice : UInt64
  deriving DecidableEq

/-- A resting offer with its identifier and details. -/
structure Entry where
  id : Word
  offer : Offer
  detail : OfferDetail
  deriving DecidableEq

/-- The state of a market's book at a block. `nextOffer` is a hint of the reader contract. -/
structure Book where
  block : Nat
  nextOffer : Word
  entries : List Entry
  deriving DecidableEq

/-- The gas base, in thousands, assumed for an offer whose event does not carry it. -/
def defaultKiloGasbase : UInt64 := 250

namespace Offer

/-- An offer as an event writes it. -/
def written (tick : Tick) (gives : Word) : Offer := ⟨tick, gives, none, none⟩

/-- A neighbour as the contract lists it: zero is none. -/
def neighbour (id : Word) : Option Word := if id = 0 then none else some id

/-- A listed offer, if its tick is in range. -/
def ofListed (o : Contract.ListedOffer) : Except DecodeFault Offer :=
  match Tick.ofInt? o.tick.toInt with
  | some tick => .ok ⟨tick, o.gives, neighbour o.prev, neighbour o.next⟩
  | none => .error (.tickOutOfRange o.tick.toInt)

end Offer

namespace OfferDetail

/-- Listed details, gas amounts saturated to 64 bits. -/
def ofListed (d : Contract.ListedDetail) : OfferDetail :=
  ⟨d.maker, d.gasreq.clamp64, d.kiloGasbase.clamp64, d.gasprice.clamp64⟩

/-- The gas base in units of gas, saturated to 64 bits. -/
def gasbase (d : OfferDetail) : UInt64 :=
  UInt64.ofNat (min (d.kiloGasbase.toNat * 1000) Word.max64)

end OfferDetail

namespace Entry

/-- The tick of an entry's offer. -/
def tick (e : Entry) : Tick := e.offer.tick

/-- The entry that a row of the contract's columns makes. -/
def ofListed (id : Word) (o : Contract.ListedOffer) (d : Contract.ListedDetail) :
    Except DecodeFault Entry :=
  (Offer.ofListed o).map fun offer => ⟨id, offer, OfferDetail.ofListed d⟩

/-- Whether the first entry may stand before the second. -/
def le (a b : Entry) : Bool := decide (a.tick ≤ b.tick)

theorem le_trans (a b c : Entry) : le a b = true → le b c = true → le a c = true := by
  simp only [le, decide_eq_true_eq, Tick.le_def]
  omega

theorem le_total (a b : Entry) : (le a b || le b a) = true := by
  simp only [le, Bool.or_eq_true, decide_eq_true_eq, Tick.le_def]
  omega

/-- Whether every entry may stand before the one after it. -/
def inOrder : List Entry → Bool
  | [] => true
  | [_] => true
  | a :: b :: rest => le a b && inOrder (b :: rest)

theorem pairwise_of_inOrder {es : List Entry} (h : inOrder es = true) :
    es.Pairwise (fun a b => a.tick ≤ b.tick) := by
  induction es with
  | nil => exact .nil
  | cons a rest ih =>
    cases rest with
    | nil => simp
    | cons b rest =>
      simp only [inOrder, Bool.and_eq_true, le, decide_eq_true_eq] at h
      have hb := ih h.2
      refine List.pairwise_cons.mpr ⟨fun e he => ?_, hb⟩
      rcases List.mem_cons.mp he with rfl | he
      · exact h.1
      · have := (List.pairwise_cons.mp hb).1 e he
        simp only [Tick.le_def] at *
        omega

/-- The entries in order of their ticks, equal ticks as they were. -/
def sort (es : List Entry) : List Entry := if inOrder es then es else es.mergeSort le

theorem pairwise_sort (es : List Entry) : (sort es).Pairwise (fun a b => a.tick ≤ b.tick) := by
  unfold sort
  split
  · rename_i h; exact pairwise_of_inOrder h
  · have := List.pairwise_mergeSort le_trans le_total es
    simpa [le] using this

theorem perm_sort (es : List Entry) : (sort es).Perm es := by
  unfold sort
  split
  · exact .rfl
  · exact List.mergeSort_perm es le

end Entry

namespace Book

/-- A book without offers. -/
def empty (block : Nat) : Book := ⟨block, 0, []⟩

/-- The identifiers in book order. -/
def ids (b : Book) : List Word := b.entries.map Entry.id

/-- The offers in book order. -/
def offers (b : Book) : List Offer := b.entries.map Entry.offer

/-- The details in book order. -/
def details (b : Book) : List OfferDetail := b.entries.map Entry.detail

/-- How many offers rest in the book. -/
def size (b : Book) : Nat := b.entries.length

/-- Whether no offer rests in the book. -/
def isEmpty (b : Book) : Bool := b.entries.isEmpty

/-- The entry of an identifier. -/
def find? (b : Book) (id : Word) : Option Entry := b.entries.find? fun e => e.id = id

/-- The place of an identifier in book order. -/
def position? (b : Book) (id : Word) : Option Nat := b.entries.findIdx? fun e => e.id = id

/-- The entry with the best price. -/
def best? (b : Book) : Option Entry := b.entries.head?

/-- The volume offered in total, saturated. -/
def totalGives (b : Book) : Word := b.entries.foldl (fun sum e => sum.satAdd e.offer.gives) 0

/-- Best prices first. -/
def Ordered (b : Book) : Prop := b.entries.Pairwise fun x y => x.tick ≤ y.tick

/-- In order, and no identifier twice. -/
def Consistent (b : Book) : Prop := b.Ordered ∧ b.ids.Nodup

instance (b : Book) : Decidable b.Ordered := inferInstanceAs (Decidable (List.Pairwise _ _))

instance (b : Book) : Decidable b.Consistent := inferInstanceAs (Decidable (_ ∧ _))

/-- The same book as the state of another block. -/
def atBlock (b : Book) (block : Nat) : Book := { b with block }

/-- The book without the offer. -/
def remove (b : Book) (id : Word) : Book :=
  { b with entries := b.entries.eraseP fun e => e.id = id }

/-- The book with one more entry, behind all entries of the same or a better tick. -/
def insert (b : Book) (e : Entry) : Book :=
  { b with
    entries := b.entries.takeWhile (fun x => x.tick ≤ e.tick) ++
      e :: b.entries.dropWhile fun x => x.tick ≤ e.tick }

/-- The entries of the contract's columns, row by row. -/
def rows : List Word → List Contract.ListedOffer → List Contract.ListedDetail →
    Except DecodeFault (List Entry)
  | id :: ids, o :: os, d :: ds =>
    (Entry.ofListed id o d).bind fun e => (rows ids os ds).map (e :: ·)
  | _, _, _ => .ok []

/-- The book of an offer list, as of a block. -/
def ofOfferList (block : Nat) (l : Contract.OfferList) : Except DecodeFault Book :=
  if l.ids.length = l.offers.length ∧ l.offers.length = l.details.length then
    (rows l.ids l.offers l.details).map fun es => ⟨block, l.nextOffer, Entry.sort es⟩
  else .error (.misaligned l.ids.length l.offers.length l.details.length)

/-! ## What removal and insertion do to a book -/

@[simp] theorem block_remove (b : Book) (id : Word) : (b.remove id).block = b.block := rfl

@[simp] theorem block_insert (b : Book) (e : Entry) : (b.insert e).block = b.block := rfl

@[simp] theorem nextOffer_remove (b : Book) (id : Word) :
    (b.remove id).nextOffer = b.nextOffer := rfl

@[simp] theorem nextOffer_insert (b : Book) (e : Entry) :
    (b.insert e).nextOffer = b.nextOffer := rfl

theorem ordered_remove {b : Book} (h : b.Ordered) (id : Word) : (b.remove id).Ordered :=
  List.Pairwise.sublist (List.eraseP_sublist ..) h

theorem perm_insert (b : Book) (e : Entry) : (b.insert e).entries.Perm (e :: b.entries) := by
  refine List.perm_middle.trans (.cons e ?_)
  rw [List.takeWhile_append_dropWhile]

theorem ordered_insert {b : Book} (h : b.Ordered) (e : Entry) : (b.insert e).Ordered := by
  cases b with
  | mk block nextOffer entries =>
    simp only [Ordered, insert] at *
    induction entries with
    | nil => simp
    | cons x xs ih =>
      obtain ⟨hx, hxs⟩ := List.pairwise_cons.mp h
      by_cases hxe : x.tick ≤ e.tick
      · simp only [List.takeWhile_cons, List.dropWhile_cons, hxe, decide_true, if_true,
          List.cons_append]
        refine List.pairwise_cons.mpr ⟨fun y hy => ?_, ih hxs⟩
        have hy' : y ∈ e :: xs := by
          have := (perm_insert ⟨block, nextOffer, xs⟩ e).mem_iff (a := y)
          exact this.mp hy
        rcases List.mem_cons.mp hy' with rfl | hy'
        · exact hxe
        · exact hx y hy'
      · simp only [List.takeWhile_cons, List.dropWhile_cons, hxe, decide_false, if_false,
          List.nil_append, Bool.false_eq_true]
        refine List.pairwise_cons.mpr ⟨fun y hy => ?_, h⟩
        have hex : e.tick ≤ x.tick := by
          simp only [Tick.le_def] at *
          omega
        rcases List.mem_cons.mp hy with rfl | hy
        · exact hex
        · have := hx y hy
          simp only [Tick.le_def] at *
          omega

end Book

end OfferBook
