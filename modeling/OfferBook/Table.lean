import OfferBook.Terminal

/-!
# Tables

A table has a heading across its whole width and rows of cells below it. A cell has one space on
either side. A column is as wide as its widest cell; if the heading needs more room, all columns
are widened alike, and what does not divide evenly goes to the first. If the table is to be
narrower than it is, columns are narrowed by one in turn, starting with the first, down to the
spaces at the sides; a cell whose text no longer fits is cut into lines of its inner width, and a
cell without inner width is blank.

A colour on a cell takes no room. A text that is cut has the colour on each of its lines. In a
table that had to be narrowed every colour, also that of a text which needed no cut, is switched
off by itself and not together with everything else.
-/

namespace OfferBook.Table

/-- A cell: its text and its colour. -/
structure Cell where
  text : String
  ink : Option Ink
  deriving DecidableEq

/-- A cell without colour. -/
def plain (text : String) : Cell := ⟨text, none⟩

/-- A line of a cell and the room it takes. -/
structure Line where
  text : String
  width : Nat
  deriving DecidableEq

/-- The room the spaces beside a cell's text take. -/
def sides : Nat := 2

/-- The characters in groups of `width`, the last one being what is left. -/
def chunks (width : Nat) (cs : List Char) : List (List Char) :=
  if _h : width = 0 ∨ cs.length = 0 then []
  else cs.take width :: chunks width (cs.drop width)
termination_by cs.length
decreasing_by simp only [List.length_drop]; omega

/-- How colours are put on text: what writes a text in a colour. -/
abbrev Painter : Type := Ink → String → String

/-- A part of a cell's text in the cell's colour. -/
def Cell.paint (painter : Painter) (c : Cell) (part : String) : String :=
  match c.ink with
  | none => part
  | some ink => painter ink part

/-- The lines of a cell of an inner width. -/
def Cell.lines (painter : Painter) (inner : Nat) (c : Cell) : List Line :=
  if c.text.length ≤ inner then [⟨c.paint painter c.text, c.text.length⟩]
  else if inner = 0 then [⟨"", 0⟩]
  else (chunks inner c.text.toList).map fun part =>
    ⟨c.paint painter (String.ofList part), part.length⟩

/-- So many spaces. -/
def spaces (n : Nat) : String := String.ofList (List.replicate n ' ')

/-- The lines of a cell as they stand in a column, `height` of them. The block of lines stands on
the left or on the right; within the block the lines start at the left. -/
def Cell.block (painter : Painter) (right : Bool) (width height : Nat) (c : Cell) :
    List String :=
  let inner := width - sides
  let lines := c.lines painter inner
  let blockWidth := (lines.map Line.width).foldl max 0
  let before := if right then inner - blockWidth else 0
  let shown := lines.map fun l =>
    " " ++ spaces before ++ l.text ++ spaces (inner - before - l.width) ++ " "
  shown ++ List.replicate (height - lines.length) (spaces width)

/-- The widths of the columns of the given rows. -/
def columnWidths : List (List Cell) → List Nat
  | [] => []
  | row :: rows =>
    let own := row.map fun c => c.text.length + sides
    let others := columnWidths rows
    if others.isEmpty then own else List.zipWith max own others

/-- The room that columns of the given widths and the borders between them take. -/
def innerWidth (widths : List Nat) : Nat := widths.foldr (· + ·) 0 + (widths.length - 1)

/-- The room that columns of the given widths take with all borders, those at the sides too. -/
def outerWidth (widths : List Nat) : Nat := innerWidth widths + 2

/-- The widths with `extra` shared out: each column has its even share, and the first also has what
is left over. -/
def widen (extra : Nat) : List Nat → List Nat
  | [] => []
  | w :: ws =>
    let n := ws.length + 1
    (w + extra / n + extra % n) :: ws.map (· + extra / n)

/-- One turn of narrowing: every column with inner width gives one, as long as there is an excess.
The excess that is left stands beside the widths. -/
def narrowOnce : Nat → List Nat → Nat × List Nat
  | excess, [] => (excess, [])
  | 0, widths => (0, widths)
  | excess + 1, w :: ws =>
    if sides < w then
      let (left, ws) := narrowOnce excess ws
      (left, (w - 1) :: ws)
    else
      let (left, ws) := narrowOnce (excess + 1) ws
      (left, w :: ws)

/-- The widths with `excess` taken away in turns, at most so many turns. -/
def narrow : Nat → Nat → List Nat → List Nat
  | 0, _, widths => widths
  | turns + 1, excess, widths =>
    let (left, widths) := narrowOnce excess widths
    narrow turns left widths

/-- A horizontal line of a table. -/
def rule (left joint right : String) (widths : List Nat) : String :=
  left ++ joint.intercalate (widths.map fun w => String.ofList (List.replicate w '─')) ++ right

/-- The lines of a row of cells. -/
def rowLines (painter : Painter) (right : Bool) (widths : List Nat) (cells : List Cell) :
    List String :=
  let heights := List.zipWith (fun w c => (c.lines painter (w - sides)).length) widths cells
  let height := heights.foldl max 0
  let blocks := List.zipWith (fun w c => c.block painter right w height) widths cells
  (List.range height).map fun i =>
    "│" ++ "│".intercalate (blocks.map fun b => b.getD i "") ++ "│"

end Table

/-- A table: its heading, its rows, and whether there are lines between the rows. -/
structure Table where
  heading : String
  rows : List (List Table.Cell)
  ruled : Bool

namespace Table

/-- The widths of the columns that show all cells and the heading on one line each. -/
def fullWidths (t : Table) : List Nat :=
  let own := columnWidths t.rows
  widen (t.heading.length + sides - innerWidth own) own

/-- How many characters the table in its full width has too many, if a width is given. -/
def excess (t : Table) : Option Nat → Nat
  | none => 0
  | some width => outerWidth t.fullWidths - width

/-- The widths of the columns, for a table of at most `width` characters if one is given. -/
def widths (t : Table) (width : Option Nat) : List Nat :=
  narrow (t.excess width) (t.excess width) t.fullWidths

/-- How a table of a width is coloured. -/
def painter (t : Table) (colored : Bool) (width : Option Nat) : Painter :=
  if t.excess width = 0 then Ink.paint colored else Ink.paintOnly colored

/-- The lines of the table. -/
def lines (t : Table) (colored : Bool) (width : Option Nat) : List String :=
  let widths := t.widths width
  let painter := t.painter colored width
  let middle := rule "├" "┼" "┤" widths
  let body := t.rows.map (rowLines painter false widths)
  let between := if t.ruled then [middle] else []
  [rule "┌" "┬" "┐" widths] ++ rowLines painter true [innerWidth widths] [plain t.heading] ++
    [middle] ++ between.intercalate body ++ [rule "└" "┴" "┘" widths]

/-- The table as text, without a line end after its last line. -/
def text (t : Table) (colored : Bool) (width : Option Nat) : String :=
  "\n".intercalate (t.lines colored width)

end Table

end OfferBook
