import OfferBook.Bytes

/-!
# Layout of call and return data

Arguments and results are laid out as a head of words followed by a tail. A value of fixed size
stands in the head itself; an array or a byte string stands in the tail, and the head holds its
offset from the start of the layout. An array is its length and then its elements, a byte string
its length and then its bytes, filled up with zeros to a whole number of words.

Reading is lenient: it looks where the offsets point and nowhere else, so tails may overlap, be
out of order, or be followed by anything. What it insists on is that everything it looks at is
there, and that an offset or a length is a number of 64 bits.

Main results:

* `takeMany_append`: elements written one after another are read back, whatever follows;
* `at?_append`: what is read at an offset is what stands behind that many bytes;
* `bytesAt?_append`, `layoutsAt?_append`: byte strings and arrays of layouts are read back at their
  offsets, whatever follows.
-/

namespace OfferBook.Contract

/-- A natural number as a word. -/
def natWord (n : Nat) : Word := BitVec.ofNat 256 n

/-- The number of an offset or a length: a word of at most 64 bits. -/
def index? (w : Word) : Option Nat := if w.toNat ≤ Word.max64 then some w.toNat else none

/-- The data from an offset on, which must not lie behind the end. -/
def at? (data : Bytes) (offset : Word) : Option Bytes :=
  (index? offset).bind fun n => if n ≤ data.length then some (data.drop n) else none

/-- Reads `n` elements off the front of the data, each by `take`. -/
def takeMany {α : Type} (take : Bytes → Option (α × Bytes)) : Nat → Bytes → Option (List α)
  | 0, _ => some []
  | n + 1, data =>
    (take data).bind fun (x, rest) => (takeMany take n rest).map (x :: ·)

/-- Reads the array at an offset: its length, then its elements, each by `take`. -/
def arrayAt? {α : Type} (take : Bytes → Option (α × Bytes)) (data : Bytes) (offset : Word) :
    Option (List α) :=
  (at? data offset).bind fun data =>
    (takeWord data).bind fun (length, rest) =>
      (index? length).bind fun n => takeMany take n rest

/-- Reads the byte string at an offset: its length, then its bytes. The zeros that fill up the
last word need not be there. -/
def bytesAt? (data : Bytes) (offset : Word) : Option Bytes :=
  (at? data offset).bind fun data =>
    (takeWord data).bind fun (length, rest) =>
      (index? length).bind fun n =>
        let found := rest.take n
        if found.length = n then some found else none

/-- How many zeros fill up `n` bytes to a whole number of words. -/
def padding (n : Nat) : Nat := (32 - n % 32) % 32

/-- A byte string in a tail. -/
def tailOfBytes (bs : Bytes) : Bytes :=
  (natWord bs.length).bytes ++ bs ++ List.replicate (padding bs.length) 0

/-- The offsets of tails that stand one after another behind `start` bytes. -/
def offsets (start : Nat) : List Bytes → List Word
  | [] => []
  | tail :: tails => natWord start :: offsets (start + tail.length) tails

/-- An array whose elements are themselves layouts: its length, the offsets of the elements
counted from behind the length, then the elements. -/
def tailOfLayouts (elements : List Bytes) : Bytes :=
  (natWord elements.length).bytes ++
    (offsets (32 * elements.length) elements).flatMap Word.bytes ++ elements.flatten

/-- Reads an array of layouts at an offset, each element by `read` at its own offset. -/
def layoutsAt? {α : Type} (read : Bytes → Option α) (data : Bytes) (offset : Word) :
    Option (List α) :=
  (at? data offset).bind fun data =>
    (takeWord data).bind fun (length, rest) =>
      (index? length).bind fun n =>
        (takeMany takeWord n rest).bind fun offsets =>
          offsets.mapM fun o => (at? rest o).bind read

theorem index?_natWord {n : Nat} (h : n ≤ Word.max64) : index? (natWord n) = some n := by
  have h' : (natWord n).toNat = n := Word.toNat_ofNat_of_le (Nat.le_trans h (by decide))
  rw [index?, h', if_pos h]

theorem at?_append {front rest : Bytes} (h : front.length ≤ Word.max64) :
    at? (front ++ rest) (natWord front.length) = some rest := by
  simp [at?, index?_natWord h]

theorem takeMany_append {α : Type} {take : Bytes → Option (α × Bytes)} {put : α → Bytes}
    (h : ∀ x rest, take (put x ++ rest) = some (x, rest)) (xs : List α) (rest : Bytes) :
    takeMany take xs.length (xs.flatMap put ++ rest) = some xs := by
  induction xs with
  | nil => rfl
  | cons x xs ih => simp [takeMany, List.append_assoc, h, ih]

theorem bytesAt?_append {front bs : Bytes} (hfront : front.length ≤ Word.max64)
    (hbs : bs.length ≤ Word.max64) (rest : Bytes) :
    bytesAt? (front ++ (tailOfBytes bs ++ rest)) (natWord front.length) = some bs := by
  rw [bytesAt?, at?_append hfront, Option.bind_some, tailOfBytes, List.append_assoc,
    List.append_assoc, takeWord_bytes_append, Option.bind_some]
  simp [index?_natWord hbs]

/-! ## Lengths -/

/-- Elements of one size written one after another. -/
theorem length_flatMap_of_size {α : Type} {put : α → Bytes} {k : Nat}
    (h : ∀ x, (put x).length = k) (xs : List α) : (xs.flatMap put).length = k * xs.length := by
  induction xs with
  | nil => rfl
  | cons x xs ih =>
    rw [List.flatMap_cons, List.length_append, h, ih, List.length_cons, Nat.mul_succ, Nat.add_comm]

@[simp] theorem length_offsets (start : Nat) (tails : List Bytes) :
    (offsets start tails).length = tails.length := by
  induction tails generalizing start with
  | nil => rfl
  | cons tail tails ih => rw [offsets, List.length_cons, List.length_cons, ih]

theorem length_tailOfLayouts (elements : List Bytes) :
    (tailOfLayouts elements).length = 32 + 32 * elements.length + elements.flatten.length := by
  rw [tailOfLayouts, List.length_append, List.length_append, Word.length_bytes,
    length_flatMap_of_size Word.length_bytes, length_offsets]

/-! ## Arrays of layouts -/

section Elements

variable {α : Type} {read : Bytes → Option α} {layout : α → Bytes} {xs : List α}

/-- Every element is found at its own offset, in front of the later ones. -/
private theorem mapM_offsets
    (h : ∀ x, (layout x).length ≤ Word.max64 → ∀ rest, read (layout x ++ rest) = some x)
    {front : Bytes} (hfits : front.length + (xs.map layout).flatten.length ≤ Word.max64)
    (rest : Bytes) :
    (offsets front.length (xs.map layout)).mapM
      (fun o => (at? (front ++ ((xs.map layout).flatten ++ rest)) o).bind read) = some xs := by
  induction xs generalizing front with
  | nil => rfl
  | cons x xs ih =>
    rw [List.map_cons, List.flatten_cons, List.length_append] at hfits
    have hhead : at? (front ++ (layout x ++ ((xs.map layout).flatten ++ rest)))
        (natWord front.length) = some (layout x ++ ((xs.map layout).flatten ++ rest)) :=
      at?_append (by omega)
    -- For the later elements this one belongs to what stands in front.
    have hfront : (front ++ layout x).length + (xs.map layout).flatten.length ≤ Word.max64 := by
      rw [List.length_append]
      omega
    have htail := ih hfront
    rw [List.length_append, List.append_assoc] at htail
    rw [List.map_cons, List.flatten_cons, List.append_assoc, offsets, List.mapM_cons, hhead, htail]
    simp [h x (by omega)]

/-- An array of layouts is read back at its offset, whatever follows it, as long as no offset in
it is longer than 64 bits. -/
theorem layoutsAt?_append
    (h : ∀ x, (layout x).length ≤ Word.max64 → ∀ rest, read (layout x ++ rest) = some x)
    {front : Bytes} (hfits : front.length + (tailOfLayouts (xs.map layout)).length ≤ Word.max64)
    (rest : Bytes) :
    layoutsAt? read (front ++ (tailOfLayouts (xs.map layout) ++ rest)) (natWord front.length) =
      some xs := by
  rw [length_tailOfLayouts, List.length_map] at hfits
  let words := offsets (32 * xs.length) (xs.map layout)
  have hwords : (words.flatMap Word.bytes).length = 32 * xs.length := by
    rw [length_flatMap_of_size Word.length_bytes, length_offsets, List.length_map]
  have htail : tailOfLayouts (xs.map layout) ++ rest = (natWord xs.length).bytes ++
      (words.flatMap Word.bytes ++ ((xs.map layout).flatten ++ rest)) := by
    simp [tailOfLayouts, words]
  have hoffsets : takeMany takeWord xs.length
      (words.flatMap Word.bytes ++ ((xs.map layout).flatten ++ rest)) = some words := by
    have := takeMany_append takeWord_bytes_append words ((xs.map layout).flatten ++ rest)
    rwa [length_offsets, List.length_map] at this
  have hbehind : (words.flatMap Word.bytes).length + (xs.map layout).flatten.length ≤
      Word.max64 := by omega
  have helements := mapM_offsets h hbehind rest
  rw [hwords] at helements
  rw [layoutsAt?, at?_append (by omega), Option.bind_some, htail, takeWord_bytes_append,
    Option.bind_some]
  simp only [index?_natWord (show xs.length ≤ Word.max64 by omega), Option.bind_some, hoffsets]
  exact helements

end Elements

end OfferBook.Contract
