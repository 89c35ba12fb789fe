import Mathlib.Algebra.Ring.Nat
import OfferBook.Book.View
import OfferBook.Proofs.FullWidth

/-!
# The levels of a book sum it up

The compact view joins neighbouring offers at one tick into a level and adds up the volumes as it
goes, and every sum stops at the greatest word. Three sums are made in three orders: within a
level, over the levels up to one, and over all offers for the heading. They agree because a sum
that saturates at every step is the true sum, saturated once (`satAdd_saturate`), in whatever order
and in whatever groups it is made.

That joining neighbours is enough is due to the order of the book. An offer in front of a book in
order stands at no higher tick than the first level, and so at the tick of no other
(`levelsOf_join`).

## Main results

* `levelsOf_levels`: the levels of a book in order are its ticks, each with what stands there.
* `cumulate_levelAt`: the cumulative volume of a level is that of all offers up to its tick.
* `SummedUp`, `compactView_sums_up`: the rows of the compact view, and its lines in full width.
-/

namespace OfferBook

/-! ## Saturated sums -/

namespace Word

/-- The number as a word, or the greatest word if the number is greater. -/
def saturate (n : Nat) : Word := BitVec.ofNat 256 (min n maxNat)

theorem toNat_saturate (n : Nat) : (saturate n).toNat = min n maxNat :=
  toNat_ofNat_of_le (Nat.min_le_right _ _)

theorem saturate_toNat (w : Word) : saturate w.toNat = w := by
  apply BitVec.eq_of_toNat_eq
  rw [toNat_saturate, Nat.min_eq_left (toNat_le_maxNat w)]

/-- Saturating the parts of a sum and then the sum is saturating the sum. -/
theorem satAdd_saturate (m n : Nat) : satAdd (saturate m) (saturate n) = saturate (m + n) := by
  apply BitVec.eq_of_toNat_eq
  rw [toNat_satAdd, toNat_saturate, toNat_saturate, toNat_saturate]
  omega

end Word

/-! ## Ticks in order -/

theorem Tick.ne_of_lt {a b : Tick} (h : a < b) : a ≠ b :=
  fun heq => Int.ne_of_lt h (congrArg Tick.val heq)

/-- Of ascending ticks, those up to one are the ones that stand no further behind. -/
theorem Tick.mem_concat_iff_le {before after : List Tick} {t u : Tick}
    (hascending : (before ++ t :: after).Pairwise (· < ·)) (hu : u ∈ before ++ t :: after) :
    u ∈ before ++ [t] ↔ u ≤ t := by
  obtain ⟨-, hafter, hbefore⟩ := List.pairwise_append.mp hascending
  obtain ⟨hbehind, -⟩ := List.pairwise_cons.mp hafter
  constructor
  · intro hmem
    rcases List.mem_append.mp hmem with hmem | hmem
    · exact Int.le_of_lt (hbefore u hmem t List.mem_cons_self)
    · rw [List.mem_singleton.mp hmem]
      exact Int.le_refl t.val
  · intro hle
    rw [List.append_cons] at hu
    rcases List.mem_append.mp hu with hmem | hmem
    · exact hmem
    · exact absurd hle (Int.not_le_of_gt (hbehind u hmem))

/-! ## Volumes -/

namespace Entry

/-- What the entries offer together. -/
def volume (es : List Entry) : Nat := (es.map fun e => e.offer.gives.toNat).sum

theorem volume_cons (e : Entry) (es : List Entry) :
    volume (e :: es) = e.offer.gives.toNat + volume es := by
  rw [volume, List.map_cons, List.sum_cons, volume]

/-- Entries of two kinds offer together what those of either kind offer. -/
theorem volume_filter_or {p q : Entry → Bool} {es : List Entry}
    (h : ∀ e ∈ es, p e = true → q e = false) :
    volume (es.filter fun e => p e || q e) = volume (es.filter p) + volume (es.filter q) := by
  induction es with
  | nil => rfl
  | cons e es ih =>
      obtain ⟨he, hes⟩ := List.forall_mem_cons.mp h
      have hrest := ih hes
      cases hp : p e with
      | true =>
          have hq : q e = false := he hp
          simp only [List.filter_cons, hp, hq, Bool.or_false, if_true, Bool.false_eq_true, if_false,
            volume_cons, hrest, Nat.add_assoc]
      | false =>
          cases hq : q e with
          | true =>
              simp only [List.filter_cons, hp, hq, Bool.or_true, if_true, Bool.false_eq_true,
                if_false, volume_cons, hrest]
              omega
          | false =>
              simp only [List.filter_cons, hp, hq, Bool.or_false, Bool.false_eq_true, if_false,
                hrest]

/-- Adding up the volumes of entries is adding their volume. -/
theorem foldl_satAdd_gives (es : List Entry) (n : Nat) :
    es.foldl (fun sum e => sum.satAdd e.offer.gives) (Word.saturate n) =
      Word.saturate (n + volume es) := by
  induction es generalizing n with
  | nil => rfl
  | cons e es ih =>
      have hstep : (Word.saturate n).satAdd e.offer.gives =
          Word.saturate (n + e.offer.gives.toNat) := by
        rw [← Word.satAdd_saturate, Word.saturate_toNat]
      rw [List.foldl_cons, hstep, ih, volume_cons, Nat.add_assoc]

end Entry

namespace PriceLevel

variable {es : List Entry} {levels : List PriceLevel} {e : Entry} {t : Tick}

/-! ## Levels -/

/-- The level of a tick, found by looking through all entries. -/
def levelAt (es : List Entry) (t : Tick) : PriceLevel :=
  let here := es.filter fun e => e.tick = t
  ⟨t, Word.saturate (Entry.volume here), here.length⟩

theorem levelAt_cons_self (e : Entry) (es : List Entry) :
    levelAt (e :: es) e.tick = ⟨e.tick, e.offer.gives.satAdd (levelAt es e.tick).gives,
      (levelAt es e.tick).count + 1⟩ := by
  have hhere : ((e :: es).filter fun x => x.tick = e.tick) =
      e :: es.filter fun x => x.tick = e.tick := List.filter_cons_of_pos (by simp)
  simp only [levelAt, hhere, Entry.volume_cons, List.length_cons]
  rw [← Word.satAdd_saturate, Word.saturate_toNat]

theorem levelAt_cons_of_ne (h : t ≠ e.tick) : levelAt (e :: es) t = levelAt es t := by
  have hhere : ((e :: es).filter fun x => x.tick = t) = es.filter fun x => x.tick = t :=
    List.filter_cons_of_neg (by simpa using Ne.symm h)
  rw [levelAt, hhere, levelAt]

theorem levelAt_of_absent (h : ∀ e ∈ es, e.tick ≠ t) : levelAt es t = ⟨t, 0, 0⟩ := by
  have hhere : (es.filter fun x => x.tick = t) = [] :=
    List.filter_eq_nil_iff.mpr fun x hx => by simpa using h x hx
  rw [levelAt, hhere]
  rfl

/-- An offer that stands alone is a level. -/
theorem levelAt_cons_of_absent (h : ∀ x ∈ es, x.tick ≠ e.tick) :
    levelAt (e :: es) e.tick = ⟨e.tick, e.offer.gives, 1⟩ := by
  rw [levelAt_cons_self, levelAt_of_absent h]
  show PriceLevel.mk _ (e.offer.gives.satAdd (Word.saturate 0)) 1 = _
  rw [← Word.saturate_toNat e.offer.gives, Word.satAdd_saturate, Nat.add_zero,
    Word.saturate_toNat]

/-- The levels are those of all ticks at which entries stand, in ascending order. -/
structure LevelsOf (es : List Entry) (levels : List PriceLevel) : Prop where
  ascending : (levels.map tick).Pairwise (· < ·)
  mem_ticks : ∀ t, t ∈ levels.map tick ↔ ∃ e ∈ es, e.tick = t
  eq_levelAt : ∀ level ∈ levels, level = levelAt es level.tick

/-- A level is the one at its tick still if an entry is added at another tick. -/
private theorem LevelsOf.eq_levelAt_cons (h : LevelsOf es levels) {level : PriceLevel}
    (hlevel : level ∈ levels) (hne : level.tick ≠ e.tick) :
    level = levelAt (e :: es) level.tick :=
  (h.eq_levelAt level hlevel).trans (levelAt_cons_of_ne hne).symm

private theorem exists_tick_cons :
    (∃ x ∈ e :: es, x.tick = t) ↔ t = e.tick ∨ ∃ x ∈ es, x.tick = t := by
  simp only [List.mem_cons, or_and_right, exists_or, exists_eq_left]
  exact or_congr_left eq_comm

/-- An offer below all levels makes one in front of them. -/
theorem levelsOf_join_of_lt (h : LevelsOf es levels) (hlt : ∀ t ∈ levels.map tick, e.tick < t) :
    LevelsOf (e :: es) (join e levels) := by
  have habsent : ∀ x ∈ es, x.tick ≠ e.tick := fun x hx =>
    (Tick.ne_of_lt (hlt _ ((h.mem_ticks x.tick).mpr ⟨x, hx, rfl⟩))).symm
  have hlevels : join e levels = levelAt (e :: es) e.tick :: levels := by
    rw [levelAt_cons_of_absent habsent]
    cases levels with
    | nil => rfl
    | cons first rest => rw [join, if_neg (Tick.ne_of_lt (hlt _ List.mem_cons_self)).symm]
  rw [hlevels]
  refine ⟨List.pairwise_cons.mpr ⟨hlt, h.ascending⟩, fun t => ?_, ?_⟩
  · rw [exists_tick_cons, ← h.mem_ticks, List.map_cons, List.mem_cons]
    rfl
  · refine List.forall_mem_cons.mpr ⟨rfl, fun level hlevel => ?_⟩
    exact h.eq_levelAt_cons hlevel (Tick.ne_of_lt (hlt _ (List.mem_map_of_mem hlevel))).symm

/-- An offer at the tick of the first level joins it. -/
theorem levelsOf_join_of_eq {first : PriceLevel} {rest : List PriceLevel}
    (h : LevelsOf es (first :: rest)) (hfirst : first.tick = e.tick) :
    LevelsOf (e :: es) (join e (first :: rest)) := by
  have hlevels : join e (first :: rest) = levelAt (e :: es) e.tick :: rest := by
    rw [levelAt_cons_self, ← hfirst, ← h.eq_levelAt first List.mem_cons_self, join,
      if_pos hfirst]
  have hticks : (join e (first :: rest)).map tick = (first :: rest).map tick := by
    rw [hlevels, List.map_cons, List.map_cons, hfirst]
    rfl
  refine ⟨hticks ▸ h.ascending, fun t => ?_, ?_⟩
  · rw [hticks, exists_tick_cons, ← h.mem_ticks, List.map_cons, List.mem_cons, hfirst,
      or_self_left]
  · rw [hlevels]
    refine List.forall_mem_cons.mpr ⟨rfl, fun level hlevel => ?_⟩
    have hlt := (List.pairwise_cons.mp h.ascending).1 _ (List.mem_map_of_mem hlevel)
    rw [hfirst] at hlt
    exact h.eq_levelAt_cons (List.mem_cons_of_mem _ hlevel) (Tick.ne_of_lt hlt).symm

/-- An offer at no higher tick than all others joins the first level, or it makes one in front. -/
theorem levelsOf_join (h : LevelsOf es levels) (hbest : ∀ x ∈ es, e.tick ≤ x.tick) :
    LevelsOf (e :: es) (join e levels) := by
  cases levels with
  | nil => exact levelsOf_join_of_lt h (List.forall_mem_nil _)
  | cons first rest =>
      by_cases hfirst : first.tick = e.tick
      · exact levelsOf_join_of_eq h hfirst
      · obtain ⟨x, hx, hxfirst⟩ := (h.mem_ticks first.tick).mp List.mem_cons_self
        have hle : e.tick ≤ first.tick := hxfirst ▸ hbest x hx
        have hne : e.tick.val ≠ first.tick.val := fun heq => hfirst (Tick.ext heq).symm
        have hlt : e.tick < first.tick := Int.lt_iff_le_and_ne.mpr ⟨hle, hne⟩
        obtain ⟨hbehind, -⟩ := List.pairwise_cons.mp h.ascending
        refine levelsOf_join_of_lt h (List.forall_mem_cons.mpr ⟨hlt, fun t ht => ?_⟩)
        exact Int.lt_trans hlt (hbehind t ht)

/-- The levels of a book in order are its ticks, each with what stands there. -/
theorem levelsOf_levels {b : Book} (h : b.Ordered) : LevelsOf b.entries b.levels := by
  obtain ⟨block, nextOffer, entries⟩ := b
  unfold Book.Ordered at h
  show LevelsOf entries (entries.foldr join [])
  induction entries with
  | nil => exact ⟨.nil, by simp, by simp⟩
  | cons e es ih =>
      obtain ⟨hbest, hes⟩ := List.pairwise_cons.mp h
      exact levelsOf_join (ih hes) hbest

/-- Every entry is counted in one level. -/
theorem sum_count_levels (b : Book) : (b.levels.map count).sum = b.size := by
  obtain ⟨block, nextOffer, entries⟩ := b
  show ((entries.foldr join []).map count).sum = entries.length
  induction entries with
  | nil => rfl
  | cons e es ih =>
      rw [List.foldr_cons, List.length_cons, ← ih]
      generalize es.foldr join [] = levels
      cases levels with
      | nil => rfl
      | cons first rest =>
          by_cases hjoin : first.tick = e.tick
          · simp only [join, if_pos hjoin, List.map_cons, List.sum_cons]
            omega
          · simp only [join, if_neg hjoin, List.map_cons, List.sum_cons]
            omega

/-! ## Cumulative volumes -/

/-- Cutting the levels is cutting the rows. -/
theorem cumulate_take (sum : Word) (levels : List PriceLevel) (n : Nat) :
    cumulate sum (levels.take n) = (cumulate sum levels).take n := by
  induction levels generalizing sum n with
  | nil => simp [cumulate]
  | cons level rest ih =>
      cases n with
      | zero => rfl
      | succ n =>
          rw [List.take_succ_cons, cumulate, cumulate, List.take_succ_cons, ih]

/-- If `sum` is the volume at the ticks `before`, then behind each of the next ticks stands the
volume of all entries up to it. -/
theorem cumulate_levelAt {before after : List Tick} {sum : Word}
    (hascending : (before ++ after).Pairwise (· < ·))
    (hall : ∀ e ∈ es, e.tick ∈ before ++ after)
    (hsum : sum = Word.saturate (Entry.volume (es.filter fun e => e.tick ∈ before))) :
    cumulate sum (after.map (levelAt es)) = after.map fun t =>
      (levelAt es t, Word.saturate (Entry.volume (es.filter fun e => e.tick ≤ t))) := by
  induction after generalizing before sum with
  | nil => rfl
  | cons t after ih =>
      have hbefore := (List.pairwise_append.mp hascending).2.2
      have hnext : sum.satAdd (levelAt es t).gives =
          Word.saturate (Entry.volume (es.filter fun e => e.tick ∈ before ++ [t])) := by
        have hapart : ∀ e ∈ es, decide (e.tick ∈ before) = true → decide (e.tick = t) = false := by
          intro e _ hmem
          have hlt := hbefore e.tick (of_decide_eq_true hmem) t List.mem_cons_self
          exact decide_eq_false (Tick.ne_of_lt hlt)
        have hsplit := Entry.volume_filter_or hapart
        simp only [levelAt, hsum, Word.satAdd_saturate, ← hsplit, List.mem_append,
          List.mem_singleton, Bool.decide_or]
      have hupTo : (es.filter fun e => e.tick ∈ before ++ [t]) =
          es.filter fun e => e.tick ≤ t :=
        List.filter_congr fun e he =>
          decide_eq_decide.mpr (Tick.mem_concat_iff_le hascending (hall e he))
      rw [List.map_cons, List.map_cons, cumulate, hnext, hupTo]
      rw [List.append_cons] at hascending hall
      rw [ih hascending hall (by rw [hupTo])]

end PriceLevel

/-! ## The compact view -/

namespace Book

/-- What the offers at a tick offer together. -/
def volumeAt (b : Book) (t : Tick) : Nat :=
  Entry.volume (b.entries.filter fun e => e.tick = t)

/-- What the offers at a tick and at better ticks offer together. -/
def volumeUpTo (b : Book) (t : Tick) : Nat :=
  Entry.volume (b.entries.filter fun e => e.tick ≤ t)

/-- How many offers stand at a tick. -/
def countAt (b : Book) (t : Tick) : Nat := (b.entries.filter fun e => e.tick = t).length

/-- The total volume is the true sum, saturated once. -/
theorem totalGives_eq (b : Book) : b.totalGives = Word.saturate (Entry.volume b.entries) := by
  rw [← Nat.zero_add (Entry.volume b.entries)]
  exact Entry.foldl_satAdd_gives b.entries 0

/-- The levels of a book in order, tick by tick. -/
theorem levels_eq {b : Book} (h : b.Ordered) :
    b.levels = (b.levels.map PriceLevel.tick).map (PriceLevel.levelAt b.entries) := by
  rw [List.map_map]
  exact (List.map_id _).symm.trans (List.map_congr_left (PriceLevel.levelsOf_levels h).eq_levelAt)

/-- The levels that a view of a book in order shows. -/
theorem shownLevels_eq {b : Book} (h : b.Ordered) (depth : Option Nat) :
    let ticks := b.levels.map PriceLevel.tick
    b.shownLevels depth = (ticks.take (depth.getD ticks.length)).map fun t =>
      (PriceLevel.levelAt b.entries t, Word.saturate (b.volumeUpTo t)) := by
  intro ticks
  have hlevels := PriceLevel.levelsOf_levels h
  have hall : ∀ e ∈ b.entries, e.tick ∈ [] ++ ticks := fun e he =>
    (hlevels.mem_ticks e.tick).mpr ⟨e, he, rfl⟩
  have hnone : (b.entries.filter fun e => e.tick ∈ ([] : List Tick)) = [] :=
    List.filter_eq_nil_iff.mpr fun e _ => by simp
  have hzero : (0 : Word) =
      Word.saturate (Entry.volume (b.entries.filter fun e => e.tick ∈ ([] : List Tick))) := by
    rw [hnone]
    rfl
  have hrows := PriceLevel.cumulate_levelAt hlevels.ascending hall hzero
  rw [shownLevels, PriceLevel.cumulate_take, levels_eq h, hrows, ← List.map_take, List.length_map]
  rfl

/-- What is offered up to the last tick is all that is offered. -/
theorem volumeUpTo_last {b : Book} {ticks : List Tick} {t : Tick}
    (hascending : ticks.Pairwise (· < ·)) (hall : ∀ e ∈ b.entries, e.tick ∈ ticks)
    (hlast : ticks.getLast? = some t) : b.volumeUpTo t = Entry.volume b.entries := by
  obtain ⟨front, rfl⟩ := List.getLast?_eq_some_iff.mp hlast
  have hfilter : (b.entries.filter fun e => e.tick ≤ t) = b.entries := by
    refine List.filter_eq_self.mpr fun e he => decide_eq_true ?_
    rcases List.mem_append.mp (hall e he) with hmem | hmem
    · have hlt := (List.pairwise_append.mp hascending).2.2 _ hmem t List.mem_cons_self
      exact Int.le_of_lt hlt
    · rw [List.mem_singleton.mp hmem]
      exact Int.le_refl t.val
  rw [volumeUpTo, hfilter]

/-- The row of a tick: what is offered there, and there and at all better ticks, either of them at
most the greatest word, and the number of offers at the tick. -/
def tickRow (b : Book) (t : Tick) : List Table.Cell :=
  [⟨t.text, some .green⟩, Table.plain (toString (min (b.volumeAt t) (2 ^ 256 - 1))),
    Table.plain (toString (min (b.volumeUpTo t) (2 ^ 256 - 1))),
    Table.plain (toString (b.countAt t))]

/-- The rows of some ticks under the headings of the columns. -/
def tickTable (b : Book) (ticks : List Tick) : Table where
  heading := b.summary
  rows := ["Tick", "Gives", "Cum Gives", "Num Offers"].map Table.plain :: ticks.map b.tickRow
  ruled := true

/-- What the compact view of a book shows, by the ticks at which offers stand. -/
structure SummedUp (b : Book) (ticks : List Tick) : Prop where
  ascending : ticks.Pairwise (· < ·)
  mem_ticks : ∀ t, t ∈ ticks ↔ ∃ e ∈ b.entries, e.tick = t
  /-- The view is the table of the first of these ticks, as many as are asked for. -/
  shown : ∀ (depth : Option Nat) colored width, b.compactView depth colored width =
    (b.tickTable (ticks.take (depth.getD ticks.length))).text colored width ++ "\n"
  /-- If no width is given, each of the rows is one line, and shows its cells in full. -/
  lines : ∀ (depth : Option Nat) colored, b.compactView depth colored none =
    "\n".intercalate
      ((b.tickTable (ticks.take (depth.getD ticks.length))).fullLines colored) ++ "\n"
  /-- Over all ticks, the numbers of offers add up to that of the book. -/
  counts : (ticks.map b.countAt).sum = b.size
  /-- What is offered up to the last tick is the total volume of the book. -/
  last : (ticks.getLast?.map fun t => min (b.volumeUpTo t) (2 ^ 256 - 1)) =
    if b.isEmpty then none else some b.totalGives.toNat

/-- The table of a view of a book in order is that of the first ticks. -/
theorem levelTable_eq {b : Book} (h : b.Ordered) (depth : Option Nat) :
    let ticks := b.levels.map PriceLevel.tick
    b.levelTable depth = b.tickTable (ticks.take (depth.getD ticks.length)) := by
  intro ticks
  have hmax : Word.maxNat = 2 ^ 256 - 1 := by decide
  have hrows : (b.shownLevels depth).map levelRow =
      (ticks.take (depth.getD ticks.length)).map b.tickRow := by
    rw [shownLevels_eq h, List.map_map]
    refine List.map_congr_left fun t _ => ?_
    rw [Function.comp_apply, levelRow, PriceLevel.levelAt, Word.toNat_saturate,
      Word.toNat_saturate, hmax]
    rfl
  rw [levelTable, hrows]
  rfl

/-- The rows of ticks have four cells each, so the table has its lines in full width. -/
theorem lines_tickTable (b : Book) (ticks : List Tick) (colored : Bool) :
    (b.tickTable ticks).lines colored none = (b.tickTable ticks).fullLines colored := by
  refine Table.lines_none (n := 4) (by decide) (List.cons_ne_nil _ _) ?_ colored
  refine List.forall_mem_cons.mpr ⟨rfl, fun row hrow => ?_⟩
  obtain ⟨t, -, rfl⟩ := List.mem_map.mp hrow
  rfl

/-- **The compact view sums the book up.** The rows of the compact view of a book in order are one
for each tick at which an offer stands, in strictly ascending order, and as many of them as are
asked for. A row has the tick, what is offered there and what is offered there and at all better
ticks, either of them at most the greatest word, and the number of offers at the tick. If all rows
are shown, these numbers add up to the number of offers, and the last cumulative volume is the total
volume of the book. -/
theorem compactView_sums_up {b : Book} (h : b.Ordered) :
    b.SummedUp (b.levels.map PriceLevel.tick) := by
  have hlevels := PriceLevel.levelsOf_levels h
  have hmax : Word.maxNat = 2 ^ 256 - 1 := by decide
  refine ⟨hlevels.ascending, hlevels.mem_ticks, ?shown, ?lines, ?counts, ?last⟩
  case shown =>
    intro depth colored width
    rw [compactView, levelTable_eq h]
  case lines =>
    intro depth colored
    rw [compactView, levelTable_eq h, Table.text, lines_tickTable]
  case counts =>
    have hcounts : b.levels.map PriceLevel.count =
        (b.levels.map PriceLevel.tick).map b.countAt :=
      (congrArg (List.map PriceLevel.count) (levels_eq h)).trans List.map_map
    rw [← hcounts, PriceLevel.sum_count_levels]
  case last =>
    have hall : ∀ e ∈ b.entries, e.tick ∈ b.levels.map PriceLevel.tick := fun e he =>
      (hlevels.mem_ticks e.tick).mpr ⟨e, he, rfl⟩
    cases hlast : (b.levels.map PriceLevel.tick).getLast? with
    | none =>
        have hempty : b.entries = [] := by
          refine List.eq_nil_iff_forall_not_mem.mpr fun e he => ?_
          have hmem := hall e he
          rw [List.getLast?_eq_none_iff.mp hlast] at hmem
          cases hmem
        rw [isEmpty, hempty]
        rfl
    | some t =>
        have hmem := List.mem_of_getLast? hlast
        obtain ⟨e, he, -⟩ := (hlevels.mem_ticks t).mp hmem
        have hfull : b.isEmpty = false := List.isEmpty_eq_false_iff.mpr (List.ne_nil_of_mem he)
        rw [hfull, Option.map_some, volumeUpTo_last hlevels.ascending hall hlast, totalGives_eq,
          Word.toNat_saturate, hmax]
        rfl

/-- Two offers at one tick offer more than a word holds, together and with a third one at a higher
tick. One of the two levels is asked for, and its line is in the view; the other is the last if all
are shown. -/
theorem compactView_sums_up_overflow :
    let low : Tick := ⟨-1, by decide, by decide⟩
    let high : Tick := ⟨3, by decide, by decide⟩
    let entry := fun (id : Word) (tick : Tick) (gives : Word) =>
      Entry.mk id ⟨tick, gives, none, none⟩ ⟨0xbb, 100, 250, 3⟩
    let b : Book := ⟨10, 0, [entry 1 low (BitVec.allOnes 256), entry 2 low 5, entry 3 high 6]⟩
    let most := toString (2 ^ 256 - 1)
    b.Ordered ∧ b.levels.map PriceLevel.tick = [low, high] ∧
      ([low, high].map b.countAt).sum = 3 ∧ min (b.volumeUpTo high) (2 ^ 256 - 1) = 2 ^ 256 - 1 ∧
      ∃ lines, b.compactView (some 1) false none = "\n".intercalate lines ++ "\n" ∧
        lines.length = 7 ∧
        lines[5]? = some ("│ -1   │ " ++ most ++ " │ " ++ most ++ " │ 2          │") := by
  intro low high entry b most
  have hordered : b.Ordered := by decide
  have hticks : b.levels.map PriceLevel.tick = [low, high] := by decide +kernel
  have hsums := compactView_sums_up hordered
  rw [hticks] at hsums
  have hlast := hsums.last
  refine ⟨hordered, hticks, hsums.counts, Option.some.inj hlast, _, hsums.lines (some 1) false,
    ?_, ?_⟩
  · rfl
  · decide +kernel

end Book

end OfferBook
