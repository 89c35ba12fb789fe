import OfferBook.Book.View
import OfferBook.Instant
import OfferBook.Market
import OfferBook.Proofs.CacheKey

/-!
# Text without marks

The sequences that enter and leave a screen have a question mark in them, and no other sequence that
is written has one. A text without question marks therefore does neither, wherever it is written and
whatever stands beside it (`Unmarked`).

Numbers, addresses, markets and instants are without marks because their characters are known. A
table arranges the texts of its cells: it cuts them, fills them up, puts colours around them and
rules between them, and none of that adds a mark.

## Main results

* `Market.unmarked_text`, `Instant.unmarked_text`: the parts of a heading.
* `Table.unmarked_text`: a table has no mark that its heading and its cells do not have.
* `Book.unmarked_compactView`: the view of a book has none.
-/

namespace OfferBook

/-- A text without a question mark. -/
def Unmarked (text : String) : Prop := '?' ∉ text.toList

instance (text : String) : Decidable (Unmarked text) :=
  inferInstanceAs (Decidable ('?' ∉ text.toList))

/-! ## Texts put together -/

@[simp] theorem unmarked_append {s t : String} :
    Unmarked (s ++ t) ↔ Unmarked s ∧ Unmarked t := by
  simp [Unmarked]

@[simp] theorem unmarked_ofList {cs : List Char} : Unmarked (String.ofList cs) ↔ '?' ∉ cs := by
  simp [Unmarked]

/-- What holds of the elements of a separator and of the lists it separates, holds of all elements
of the whole. -/
theorem forall_mem_intercalate {α : Type} {P : α → Prop} {sep : List α} {xs : List (List α)}
    (hsep : ∀ a ∈ sep, P a) (h : ∀ x ∈ xs, ∀ a ∈ x, P a) : ∀ a ∈ sep.intercalate xs, P a := by
  induction xs with
  | nil => simp
  | cons x xs ih =>
      obtain ⟨hx, hxs⟩ := List.forall_mem_cons.mp h
      cases xs with
      | nil => simpa using hx
      | cons y ys =>
          have hrest := ih hxs
          simp only [List.intercalate, List.intersperse_cons_cons, List.flatten_cons,
            List.forall_mem_append] at hrest ⊢
          exact ⟨hx, hsep, hrest⟩

theorem unmarked_intercalate {s : String} {l : List String} (hs : Unmarked s)
    (h : ∀ t ∈ l, Unmarked t) : Unmarked (s.intercalate l) := by
  intro hmem
  rw [String.toList_intercalate] at hmem
  refine forall_mem_intercalate (P := fun c => c ≠ '?') (fun c hc heq => hs (heq ▸ hc)) ?_ _ hmem
    rfl
  intro x hx c hc heq
  obtain ⟨t, ht, rfl⟩ := List.mem_map.mp hx
  exact h t ht (heq ▸ hc)

/-! ## Numbers and names -/

@[simp] theorem unmarked_repr (n : Nat) : Unmarked n.repr := by
  intro hmem
  have hdigit : '?'.isDigit = true := isDigit_of_mem_repr hmem
  cases hdigit

theorem Tick.unmarked_text (t : Tick) : Unmarked t.text := by
  unfold text
  cases t.val with
  | ofNat n => exact unmarked_repr n
  | negSucc n =>
      show Unmarked ("-" ++ (n + 1).repr)
      simp +decide

/-- Lowering the text of an address leaves its digits, and would leave a mark. -/
theorem Address.unmarked_text (a : Address) : Unmarked a.text := by
  intro hmem
  have hlower : '?' ∈ a.text.toList.map Char.toLower := List.mem_map.mpr ⟨'?', hmem, rfl⟩
  rw [(Address.text_lowered a).2] at hlower
  have hdigits : '?' ∈ a.digits := by simpa [plainText] using hlower
  obtain ⟨n, hn, hdigit⟩ := List.mem_map.mp hdigits
  have hplain : ∀ n : Fin 16, hexDigit n ≠ '?' := by decide
  exact hplain ⟨n, mem_nibbles_lt hn⟩ hdigit

theorem Market.unmarked_text (m : Market) : Unmarked m.text := by
  simp +decide [text, Address.unmarked_text, toString]

theorem Calendar.unmarked_padded (width n : Nat) : Unmarked (padded width n) := by
  simp +decide [padded]

theorem Calendar.unmarked_timeText? {seconds : Int} {time : String}
    (h : timeText? seconds = some time) : Unmarked time := by
  unfold timeText? at h
  simp only at h
  split at h
  · have hsign (year : Int) :
        Unmarked (if year < 0 then "-" else if 9999 < year then "+" else "") := by
      split
      · decide
      · split <;> decide
    rw [← Option.some.inj h]
    simp +decide [unmarked_padded, yearText, hsign]
  · cases h

theorem Instant.unmarked_text (i : Instant) : Unmarked i.text := by
  unfold text
  cases h : Calendar.timeText? i.seconds with
  | none => simp +decide
  | some time =>
      simp only
      split
      · simp +decide
      · simp +decide [Calendar.unmarked_timeText? h]

/-! ## Tables -/

namespace Table

/-- A painter that adds no marks. -/
def Painter.Clean (painter : Painter) : Prop :=
  ∀ ink text, Unmarked text → Unmarked (painter ink text)

theorem clean_painter (t : Table) (colored : Bool) (width : Option Nat) :
    (t.painter colored width).Clean := by
  intro ink text h
  have hstart : Unmarked ink.start := by cases ink <;> decide
  unfold painter
  split
  · unfold Ink.paint
    split <;> simp +decide [h, hstart]
  · unfold Ink.paintOnly
    split <;> simp +decide [h, hstart]

theorem unmarked_spaces (n : Nat) : Unmarked (spaces n) := by
  simp +decide [spaces]

/-- Cutting a text adds no characters. -/
theorem mem_of_mem_chunks {width : Nat} {cs part : List Char} {c : Char} (hc : c ∈ part)
    (hpart : part ∈ chunks width cs) : c ∈ cs := by
  fun_induction chunks width cs with
  | case1 cs h => cases hpart
  | case2 cs h ih =>
      rcases List.mem_cons.mp hpart with rfl | hlater
      · exact List.mem_of_mem_take hc
      · exact List.mem_of_mem_drop (ih hlater)

section Cells

variable {painter : Painter} {c : Cell}

theorem Cell.unmarked_paint (hp : painter.Clean) (c : Cell) {part : String} (h : Unmarked part) :
    Unmarked (c.paint painter part) := by
  unfold paint
  split
  · exact h
  · exact hp _ _ h

theorem Cell.unmarked_lines (hp : painter.Clean) (hc : Unmarked c.text) (inner : Nat) :
    ∀ l ∈ c.lines painter inner, Unmarked l.text := by
  intro l hl
  unfold lines at hl
  split at hl
  · obtain rfl := List.mem_singleton.mp hl
    exact unmarked_paint hp c hc
  · split at hl
    · obtain rfl := List.mem_singleton.mp hl
      decide
    · obtain ⟨part, hpart, rfl⟩ := List.mem_map.mp hl
      have hpart : '?' ∉ part := fun hmem => hc (mem_of_mem_chunks hmem hpart)
      exact unmarked_paint hp c (unmarked_ofList.mpr hpart)

theorem Cell.unmarked_block (hp : painter.Clean) (hc : Unmarked c.text) (right : Bool)
    (width height : Nat) : ∀ s ∈ c.block painter right width height, Unmarked s := by
  intro s hs
  rcases List.mem_append.mp hs with hshown | hfill
  · obtain ⟨l, hl, rfl⟩ := List.mem_map.mp hshown
    have hline := unmarked_lines hp hc _ l hl
    simp +decide [hline, unmarked_spaces]
  · rw [List.eq_of_mem_replicate hfill]
    exact unmarked_spaces width

theorem unmarked_rowLines (hp : painter.Clean) (right : Bool) (widths : List Nat)
    {cells : List Cell} (hcells : ∀ c ∈ cells, Unmarked c.text) :
    ∀ s ∈ rowLines painter right widths cells, Unmarked s := by
  intro s hs
  obtain ⟨i, -, rfl⟩ := List.mem_map.mp hs
  simp only [unmarked_append]
  refine ⟨⟨by decide, unmarked_intercalate (by decide) fun part hpart => ?_⟩, by decide⟩
  obtain ⟨block, hblock, rfl⟩ := List.mem_map.mp hpart
  obtain ⟨k, hk, rfl⟩ := List.mem_iff_getElem.mp hblock
  rw [List.getElem_zipWith, List.getD_eq_getElem?_getD]
  -- A block that is too short has an empty line here.
  cases hline : (Cell.block _ _ _ _ _)[i]? with
  | none => decide
  | some line =>
      exact Cell.unmarked_block hp (hcells _ (List.getElem_mem _)) _ _ _ line
        (List.mem_of_getElem? hline)

end Cells

theorem unmarked_rule {left joint right : String} (hl : Unmarked left) (hj : Unmarked joint)
    (hr : Unmarked right) (widths : List Nat) : Unmarked (rule left joint right widths) := by
  have hinner : Unmarked
      (joint.intercalate (widths.map fun w => String.ofList (List.replicate w '─'))) := by
    refine unmarked_intercalate hj fun t ht => ?_
    obtain ⟨w, -, rfl⟩ := List.mem_map.mp ht
    simp +decide
  simp [rule, hl, hr, hinner]

/-- A table has no mark that its heading and its cells do not have. -/
theorem unmarked_text (t : Table) (hheading : Unmarked t.heading)
    (hrows : ∀ row ∈ t.rows, ∀ c ∈ row, Unmarked c.text) (colored : Bool) (width : Option Nat) :
    Unmarked (t.text colored width) := by
  have hp := t.clean_painter colored width
  have hmiddle : Unmarked (rule "├" "┼" "┤" (t.widths width)) :=
    unmarked_rule (by decide) (by decide) (by decide) _
  have hbetween : ∀ s ∈ if t.ruled then [rule "├" "┼" "┤" (t.widths width)] else [],
      Unmarked s := by
    split
    · exact List.forall_mem_singleton.mpr hmiddle
    · exact List.forall_mem_nil _
  have hbody : ∀ lines ∈ t.rows.map
      (rowLines (t.painter colored width) false (t.widths width)), ∀ s ∈ lines, Unmarked s := by
    intro lines hlines
    obtain ⟨row, hrow, rfl⟩ := List.mem_map.mp hlines
    exact unmarked_rowLines hp false _ (hrows row hrow)
  have hhead := unmarked_rowLines hp true [innerWidth (t.widths width)]
    (List.forall_mem_singleton.mpr hheading : ∀ c ∈ [plain t.heading], Unmarked c.text)
  refine unmarked_intercalate (by decide) ?_
  simp only [lines, List.forall_mem_append, List.forall_mem_singleton]
  exact ⟨⟨⟨⟨unmarked_rule (by decide) (by decide) (by decide) _, hhead⟩, hmiddle⟩,
    forall_mem_intercalate hbetween hbody⟩, unmarked_rule (by decide) (by decide) (by decide) _⟩

end Table

/-! ## Views -/

namespace Book

theorem unmarked_summary (b : Book) : Unmarked b.summary := by
  simp +decide [summary]

/-- The compact view of a book has no marks. -/
theorem unmarked_compactView (b : Book) (depth : Option Nat) (colored : Bool)
    (width : Option Nat) : Unmarked (b.compactView depth colored width) := by
  have hrows : ∀ row ∈ (b.levelTable depth).rows, ∀ c ∈ row, Unmarked c.text := by
    refine List.forall_mem_cons.mpr ⟨by decide, fun row hrow => ?_⟩
    obtain ⟨level, -, rfl⟩ := List.mem_map.mp hrow
    simp [levelRow, Table.plain, Tick.unmarked_text]
  have htable := (b.levelTable depth).unmarked_text b.unmarked_summary hrows colored width
  exact unmarked_append.mpr ⟨htable, by decide⟩

end Book

end OfferBook
