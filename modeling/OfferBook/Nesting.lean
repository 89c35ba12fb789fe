import OfferBook.IdSet

/-!
# Nested orders

While an order executes, the makers it calls may start orders of their own, so the orders open at
one time form a stack. For every open order the offers written during it are remembered: when one
of them is taken, its write has already told the book what is left of it, whereas an offer that
was not written during the order leaves the book when it is taken.

Nesting belongs to no snapshot of a book; it lives beside the history and starts idle.
-/

namespace OfferBook

/-- The open orders, innermost first, each with the offers written during it. -/
structure Nesting where
  frames : List IdSet
  deriving DecidableEq

/-- How an offer that is taken relates to the innermost open order. -/
inductive Settlement where
  /-- No order is open. -/
  | noOpenOrder
  /-- The offer was written during the order; that write is now accounted for. -/
  | touched
  /-- The offer was not written during the order. -/
  | untouched
  deriving DecidableEq

namespace Nesting

/-- No order is open. -/
def idle : Nesting := ⟨[]⟩

instance : Inhabited Nesting := ⟨idle⟩

/-- How many orders are open. -/
def depth (n : Nesting) : Nat := n.frames.length

/-- Whether no order is open. -/
def isIdle (n : Nesting) : Bool := n.frames.isEmpty

/-- The offers written so far during the innermost open order. -/
def touched? (n : Nesting) : Option IdSet := n.frames.head?

/-- An order starts. -/
def start (n : Nesting) : Nesting := ⟨.empty :: n.frames⟩

/-- The innermost order is complete; nothing if none is open. -/
def complete? (n : Nesting) : Option Nesting :=
  match n.frames with
  | [] => none
  | _ :: rest => some ⟨rest⟩

/-- An offer is written during the innermost open order. -/
def touch (n : Nesting) (id : Word) : Nesting :=
  match n.frames with
  | [] => n
  | frame :: rest => ⟨frame.insert id :: rest⟩

/-- An offer is taken: how it relates to the innermost order, and the nesting afterwards. -/
def settle (n : Nesting) (id : Word) : Settlement × Nesting :=
  match n.frames with
  | [] => (.noOpenOrder, n)
  | frame :: rest =>
    if id ∈ frame then (.touched, ⟨frame.erase id :: rest⟩) else (.untouched, n)

theorem isIdle_iff {n : Nesting} : n.isIdle = true ↔ n.depth = 0 := by
  simp [isIdle, depth]

@[simp] theorem depth_start (n : Nesting) : n.start.depth = n.depth + 1 := rfl

@[simp] theorem depth_touch (n : Nesting) (id : Word) : (n.touch id).depth = n.depth := by
  unfold touch depth
  split <;> simp_all

@[simp] theorem depth_settle (n : Nesting) (id : Word) : (n.settle id).2.depth = n.depth := by
  unfold settle depth
  split
  · rfl
  · split <;> simp_all

@[simp] theorem complete?_start (n : Nesting) : n.start.complete? = some n := rfl

end Nesting

end OfferBook
