import OfferBook.Book.Basic
import OfferBook.Notice

/-!
# Histories

A history keeps the latest snapshots of a book, at most one for a block and no more than its
capacity, so that a question about a past block can be answered as long as the block is recent.
The snapshots are held newest first. Storing a snapshot first forgets every snapshot of its own
block and of later ones, which it supersedes, and then the oldest ones that no longer fit; so in
the common case it is put in front, for the latest block it replaces the front, and for an older
block it corrects the history from there on.

Main results:

* `latest?_insert`: the snapshot just stored is the latest;
* `length_insert_le`: the capacity is never exceeded.
-/

namespace OfferBook

/-- The latest snapshots, newest first, and how many of them may be held. -/
structure History where
  capacity : Nat
  one_le_capacity : 1 ≤ capacity
  snapshots : List Book
  deriving DecidableEq

namespace History

/-- A history without snapshots. It holds at least one, whatever is asked for. -/
def new (capacity : Nat) : History := ⟨max capacity 1, Nat.le_max_right capacity 1, []⟩

/-- How many snapshots are held. -/
def size (h : History) : Nat := h.snapshots.length

/-- Whether no snapshot is held. -/
def isEmpty (h : History) : Bool := h.snapshots.isEmpty

/-- The most recent snapshot. -/
def latest? (h : History) : Option Book := h.snapshots.head?

/-- The oldest block that can be answered for. -/
def oldestBlock? (h : History) : Option Nat := h.snapshots.getLast?.map Book.block

/-- The snapshot valid at a block: the latest one taken at or before it. A block older than all
snapshots is unknown. -/
def atOrBefore? (h : History) (block : Nat) : Option Book :=
  h.snapshots.find? fun s => s.block ≤ block

/-- The history with one more snapshot. -/
def insert (h : History) (s : Book) : History :=
  { h with
    snapshots := (s :: h.snapshots.dropWhile fun t => s.block ≤ t.block).take h.capacity }

/-- Whether storing a snapshot of this block goes back behind the latest one. -/
def corrects (h : History) (block : Nat) : Bool :=
  match h.latest? with
  | some latest => block < latest.block
  | none => false

/-- Stores a snapshot, remarking on a correction. -/
def store (h : History) (s : Book) : Traced History :=
  ⟨h.insert s, if h.corrects s.block then [.correctedHistory] else []⟩

/-- The history without its snapshots. -/
def clear (h : History) : History := { h with snapshots := [] }

@[simp] theorem latest?_insert (h : History) (s : Book) : (h.insert s).latest? = some s := by
  have := h.one_le_capacity
  obtain ⟨n, hn⟩ : ∃ n, h.capacity = n + 1 := ⟨h.capacity - 1, by omega⟩
  simp [insert, latest?, hn]

theorem length_insert_le (h : History) (s : Book) :
    (h.insert s).snapshots.length ≤ h.capacity := by
  simp only [insert, List.length_take]
  omega

@[simp] theorem capacity_insert (h : History) (s : Book) :
    (h.insert s).capacity = h.capacity := rfl

end History

end OfferBook
