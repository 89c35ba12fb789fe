import OfferBook.Book.Basic

/-!
# Price levels

The compact reading of a book: neighbouring offers at one tick are one level, with the volume they
offer together and their number. In a book that is in order a tick has one level. The cumulative
volume of a level is that of all levels up to it. All volumes saturate.
-/

namespace OfferBook

/-- The offers at one tick: their volume and their number. -/
structure PriceLevel where
  tick : Tick
  gives : Word
  count : Nat
  deriving DecidableEq

namespace PriceLevel

/-- The levels with one more offer in front of the book. -/
def join (e : Entry) : List PriceLevel → List PriceLevel
  | [] => [⟨e.tick, e.offer.gives, 1⟩]
  | level :: rest =>
    if level.tick = e.tick then
      ⟨level.tick, e.offer.gives.satAdd level.gives, level.count + 1⟩ :: rest
    else ⟨e.tick, e.offer.gives, 1⟩ :: level :: rest

/-- Every level with the volume of the levels up to it, counted from `sum` on. -/
def cumulate (sum : Word) : List PriceLevel → List (PriceLevel × Word)
  | [] => []
  | level :: rest =>
    let sum := sum.satAdd level.gives
    (level, sum) :: cumulate sum rest

end PriceLevel

/-- The price levels of a book, best price first. -/
def Book.levels (b : Book) : List PriceLevel := b.entries.foldr PriceLevel.join []

end OfferBook
