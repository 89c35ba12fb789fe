import Mathlib.Data.List.Forall2
import OfferBook.Table

/-!
# Tables in full width

A table that need not be narrowed has every row on one line, with the text of every cell in full.
Its columns are as wide as their widest cell or wider, so each cell fits its column (`Fit`), and a
cell that fits makes one line; the widening makes room for the heading.

## Main results

* `rowLines_of_fit`: a row whose cells fit is one line.
* `fit_columnWidths`: every cell fits its column.
* `lines_none`: the lines of a table in full width, written out.
-/

namespace OfferBook.Table

variable {painter : Painter} {right : Bool} {width n : Nat} {widths : List Nat} {c : Cell}
  {cells : List Cell} {rows : List (List Cell)} {t : Table}

/-! ## Rows on one line -/

/-- Each cell has room for its text in its column. -/
def Fit (widths : List Nat) (cells : List Cell) : Prop :=
  List.Forall₂ (fun w c => c.text.length + sides ≤ w) widths cells

/-- A cell on one line: its text in its colour, with a space on either side, and more spaces behind
it, or before it, that fill the column. -/
def Cell.onLine (painter : Painter) (right : Bool) (width : Nat) (c : Cell) : String :=
  let fill := spaces (width - sides - c.text.length)
  let text := c.paint painter c.text
  if right then " " ++ fill ++ text ++ " " else " " ++ text ++ fill ++ " "

/-- A row on one line: its cells between borders. -/
def rowLine (painter : Painter) (right : Bool) (widths : List Nat) (cells : List Cell) : String :=
  "│" ++ "│".intercalate (List.zipWith (Cell.onLine painter right) widths cells) ++ "│"

theorem lines_of_fit (h : c.text.length + sides ≤ width) :
    c.lines painter (width - sides) = [⟨c.paint painter c.text, c.text.length⟩] :=
  if_pos (by omega)

theorem block_of_fit (h : c.text.length + sides ≤ width) :
    c.block painter right width 1 = [c.onLine painter right width] := by
  have hnone : spaces 0 = "" := rfl
  have hright : width - sides - (width - sides - c.text.length) - c.text.length = 0 := by omega
  simp only [Cell.block, lines_of_fit h, Cell.onLine, List.map_cons, List.map_nil, List.foldl_cons,
    List.foldl_nil, Nat.zero_max, List.length_singleton, Nat.sub_self, List.replicate_zero,
    List.append_nil]
  cases right with
  | true => simp only [if_true, hright, hnone, String.append_empty]
  | false => simp only [Bool.false_eq_true, if_false, hnone, Nat.sub_zero, String.append_empty]

/-- Lines that are counted one by one for each of some cells are one line at most. -/
private theorem foldl_max_replicate_one (k : Nat) : (List.replicate k 1).foldl max 1 = 1 := by
  induction k with
  | zero => rfl
  | succ k ih => rwa [List.replicate_succ, List.foldl_cons, Nat.max_self]

private theorem heights_of_fit (h : Fit widths cells) :
    List.zipWith (fun w c => (c.lines painter (w - sides)).length) widths cells =
      List.replicate cells.length 1 := by
  induction h with
  | nil => rfl
  | cons hfit _ ih =>
      rw [List.zipWith_cons_cons, ih, lines_of_fit hfit]
      rfl

private theorem blocks_of_fit (h : Fit widths cells) :
    List.zipWith (fun w c => c.block painter right w 1) widths cells =
      (List.zipWith (Cell.onLine painter right) widths cells).map fun line => [line] := by
  induction h with
  | nil => rfl
  | cons hfit _ ih => rw [List.zipWith_cons_cons, ih, block_of_fit hfit]; rfl

/-- A row whose cells fit is one line. -/
theorem rowLines_of_fit (h : Fit widths cells) (hne : cells ≠ []) :
    rowLines painter right widths cells = [rowLine painter right widths cells] := by
  obtain ⟨k, hk⟩ := Nat.exists_eq_add_one.mpr (List.length_pos_iff.mpr hne)
  have hheight : (List.replicate cells.length 1).foldl max 0 = 1 := by
    rw [hk, List.replicate_succ, List.foldl_cons]
    exact foldl_max_replicate_one k
  simp only [rowLines, heights_of_fit h, hheight, blocks_of_fit h, List.map_map]
  simp [rowLine, Function.comp_def]

/-! ## The widths of columns -/

/-- What fits a column fits a wider one. -/
theorem Fit.widen {wider : List Nat} (h : Fit widths cells)
    (hwider : List.Forall₂ (· ≤ ·) widths wider) : Fit wider cells := by
  induction h generalizing wider with
  | nil =>
      cases hwider
      exact .nil
  | cons hfit _ ih =>
      cases hwider with
      | cons hle hrest => exact .cons (Nat.le_trans hfit hle) (ih hrest)

private theorem forall₂_le_zipWith_max :
    ∀ {xs ys : List Nat}, xs.length = ys.length →
      List.Forall₂ (· ≤ ·) xs (List.zipWith max xs ys) ∧
        List.Forall₂ (· ≤ ·) ys (List.zipWith max xs ys)
  | [], [], _ => ⟨.nil, .nil⟩
  | x :: xs, y :: ys, h => by
    obtain ⟨hleft, hright⟩ := forall₂_le_zipWith_max (Nat.succ.inj h)
    exact ⟨.cons (Nat.le_max_left x y) hleft, .cons (Nat.le_max_right x y) hright⟩

/-- A row fits columns as wide as its own cells. -/
private theorem fit_own (cells : List Cell) :
    Fit (cells.map fun c => c.text.length + sides) cells := by
  induction cells with
  | nil => exact .nil
  | cons c cells ih => exact .cons (Nat.le_refl _) ih

/-- Every cell of rows that have `n` cells each fits its column. -/
theorem fit_columnWidths (hn : n ≠ 0) (hrows : rows ≠ []) (h : ∀ row ∈ rows, row.length = n) :
    (columnWidths rows).length = n ∧ ∀ row ∈ rows, Fit (columnWidths rows) row := by
  induction rows with
  | nil => exact absurd rfl hrows
  | cons row rows ih =>
      obtain ⟨hrow, hothers⟩ := List.forall_mem_cons.mp h
      have hown : (row.map fun c => c.text.length + sides).length = n := by
        rw [List.length_map, hrow]
      cases rows with
      | nil => exact ⟨hown, List.forall_mem_singleton.mpr (fit_own row)⟩
      | cons other rows =>
          obtain ⟨hlength, hfit⟩ := ih (List.cons_ne_nil _ _) hothers
          have hne : (columnWidths (other :: rows)).isEmpty = false := by
            rw [List.isEmpty_eq_false_iff, ← List.length_pos_iff, hlength]
            omega
          have hwidths : columnWidths (row :: other :: rows) =
              List.zipWith max (row.map fun c => c.text.length + sides)
                (columnWidths (other :: rows)) := by
            rw [columnWidths, hne, if_neg Bool.false_ne_true]
          obtain ⟨hfirst, hrest⟩ := forall₂_le_zipWith_max (hown.trans hlength.symm)
          rw [hwidths, List.length_zipWith, hown, hlength, Nat.min_self]
          exact ⟨rfl, List.forall_mem_cons.mpr
            ⟨(fit_own row).widen hfirst, fun r hr => (hfit r hr).widen hrest⟩⟩

private theorem forall₂_le_map_add (ws : List Nat) (k : Nat) :
    List.Forall₂ (· ≤ ·) ws (ws.map (· + k)) := by
  induction ws with
  | nil => exact .nil
  | cons w ws ih => exact .cons (Nat.le_add_right w k) ih

/-- Sharing out room makes no column narrower. -/
theorem forall₂_le_widen (extra : Nat) (ws : List Nat) :
    List.Forall₂ (· ≤ ·) ws (Table.widen extra ws) := by
  cases ws with
  | nil => exact .nil
  | cons w ws =>
      exact .cons (by rw [Nat.add_assoc]; exact Nat.le_add_right w _) (forall₂_le_map_add ws _)

private theorem foldr_add_map_add (ws : List Nat) (k : Nat) :
    (ws.map (· + k)).foldr (· + ·) 0 = ws.foldr (· + ·) 0 + ws.length * k := by
  induction ws with
  | nil => simp
  | cons w ws ih =>
      simp only [List.map_cons, List.foldr_cons, ih, List.length_cons, Nat.add_mul]
      omega

/-- All of the room is shared out. -/
theorem innerWidth_widen {ws : List Nat} (hne : ws ≠ []) (extra : Nat) :
    innerWidth (Table.widen extra ws) = innerWidth ws + extra := by
  cases ws with
  | nil => exact absurd rfl hne
  | cons w ws =>
      have hshares := Nat.div_add_mod extra (ws.length + 1)
      rw [Nat.add_mul, Nat.one_mul] at hshares
      simp only [innerWidth, Table.widen, List.foldr_cons, foldr_add_map_add, List.length_cons,
        List.length_map]
      omega

/-! ## The table -/

/-- The lines of a table in full width. -/
def fullLines (t : Table) (colored : Bool) : List String :=
  let widths := t.fullWidths
  let middle := rule "├" "┼" "┤" widths
  let body := t.rows.map (rowLine (Ink.paint colored) false widths)
  [rule "┌" "┬" "┐" widths,
    rowLine (Ink.paint colored) true [innerWidth widths] [plain t.heading], middle] ++
    (if t.ruled then body.intersperse middle else body) ++ [rule "└" "┴" "┘" widths]

/-- Rows of one line each are parted by single lines, or by nothing. -/
private theorem intercalate_singletons {α : Type} (sep : α) (ruled : Bool) (xs : List α) :
    (if ruled then [sep] else []).intercalate (xs.map fun x => [x]) =
      if ruled then xs.intersperse sep else xs := by
  induction xs with
  | nil => cases ruled <;> rfl
  | cons x xs ih =>
      cases xs with
      | nil => cases ruled <;> simp
      | cons y ys =>
          simp only [List.intercalate, List.map_cons, List.intersperse_cons_cons,
            List.flatten_cons] at ih ⊢
          rw [ih]
          cases ruled <;> simp

/-- **Tables in full width.** A table whose rows have as many cells each has these lines if no width
is given. -/
theorem lines_none (hn : n ≠ 0) (hrows : t.rows ≠ []) (h : ∀ row ∈ t.rows, row.length = n)
    (colored : Bool) : t.lines colored none = t.fullLines colored := by
  obtain ⟨hlength, hfit⟩ := fit_columnWidths hn hrows h
  have hne : columnWidths t.rows ≠ [] := by
    rw [← List.length_pos_iff, hlength]
    omega
  have hwidths : t.widths none = t.fullWidths := rfl
  have hpainter : t.painter colored none = Ink.paint colored := rfl
  have hheading : Fit [innerWidth t.fullWidths] [plain t.heading] := by
    refine .cons ?_ .nil
    show t.heading.length + sides ≤ _
    rw [fullWidths, innerWidth_widen hne]
    omega
  have hbody : t.rows.map (rowLines (Ink.paint colored) false t.fullWidths) =
      (t.rows.map (rowLine (Ink.paint colored) false t.fullWidths)).map fun line => [line] := by
    rw [List.map_map]
    refine List.map_congr_left fun row hrow => ?_
    have hcells : row ≠ [] := by
      rw [← List.length_pos_iff, h row hrow]
      omega
    exact rowLines_of_fit ((hfit row hrow).widen (forall₂_le_widen _ _)) hcells
  simp only [lines, hwidths, hpainter, hbody, rowLines_of_fit hheading (List.cons_ne_nil _ _),
    intercalate_singletons, fullLines]
  rfl

end OfferBook.Table
