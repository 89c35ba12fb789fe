import OfferBook.Book.Levels
import OfferBook.Table

/-!
# Views of a book

A book is shown as a table under a heading that sums it up: all offers with their details, or,
compactly, the price levels with their cumulative volume, best price first and as many as asked
for.
-/

namespace OfferBook.Book

/-- The heading of a view. -/
def summary (b : Book) : String :=
  s!"Block: {b.block} :: Offers: {b.size} :: Total gives: {b.totalGives.toNat}" ++
    s!" :: Next offer: {b.nextOffer.toNat}"

/-- The row of an offer. -/
def offerRow (e : Entry) : List Table.Cell :=
  [toString e.id.toNat, e.tick.text, toString e.offer.gives.toNat, e.detail.maker.text,
    toString e.detail.gasreq.toNat, toString e.detail.gasbase.toNat,
    toString e.detail.gasprice.toNat].map Table.plain

/-- All offers with their details. -/
def offerTable (b : Book) : Table where
  heading := b.summary
  rows :=
    ["ID", "Tick", "Gives", "Maker", "Gas Req", "Gas Base", "Gas Price"].map Table.plain ::
      b.entries.map offerRow
  ruled := false

/-- The price levels that a view of a depth shows, with their cumulative volume. -/
def shownLevels (b : Book) (depth : Option Nat) : List (PriceLevel × Word) :=
  let levels := b.levels
  PriceLevel.cumulate 0 (levels.take (depth.getD levels.length))

/-- The row of a price level. -/
def levelRow (row : PriceLevel × Word) : List Table.Cell :=
  [⟨row.1.tick.text, some .green⟩, Table.plain (toString row.1.gives.toNat),
    Table.plain (toString row.2.toNat), Table.plain (toString row.1.count)]

/-- The price levels, as many as asked for. -/
def levelTable (b : Book) (depth : Option Nat) : Table where
  heading := b.summary
  rows :=
    ["Tick", "Gives", "Cum Gives", "Num Offers"].map Table.plain ::
      (b.shownLevels depth).map levelRow
  ruled := true

/-- The full view, in at most `width` characters if a width is given. -/
def fullView (b : Book) (colored : Bool) (width : Option Nat) : String :=
  b.offerTable.text colored width ++ "\n"

/-- The compact view, in at most `width` characters if a width is given. -/
def compactView (b : Book) (depth : Option Nat) (colored : Bool) (width : Option Nat) : String :=
  (b.levelTable depth).text colored width ++ "\n"

end OfferBook.Book
