import Mathlib.Data.Finmap
import OfferBook.Proofs.OpenOrder

/-!
# Counting the open orders

The open orders can also be kept as a counter and a table: the counter says how many orders are
open, and the table has a frame for each of them under its depth. Nothing in the two types makes
them agree: a frame could be left over from an order that is complete, or be overwritten while its
order is open, or be one in which nothing is recorded. This module keeps the orders in that way
(`FrameTable`) and shows that it comes to the same as the stack (`Nesting`).

A stack is laid out in a table by `ofFrames`, the outermost order at depth one. What each event does
to the table is then what it does to the stack (`ofNesting_apply`), and so it is for all of them
(`applyAll_empty`). The counter has 32 bits. A completion finds the frame it has to take away as
long as no outer order has the same depth, which is where the bound on the orders open at one time
comes in; a start needs no bound, and neither do the events that look at one frame only.

## Main results

* `mem_ofFrames`: the depths of a stack's frames are those from one up to its height.
* `ofNesting_apply`, `applyAll_empty`: the table runs as the stack does.
* `frames_follow_depth`: what counter and table have to do with each other, and that an order
  leaves no trace.
-/

namespace OfferBook

variable {events : List BookEvent}

/-- What is kept for an open order. -/
structure Frame where
  /-- Whether the offers written are recorded. -/
  locked : Bool
  /-- The offers written during the order and not yet accounted for. -/
  touched : IdSet
  deriving DecidableEq

/-- The open orders, by depth. -/
structure FrameTable where
  /-- How many orders are open. -/
  depth : UInt32
  /-- The frame of each of them. -/
  frames : Finmap fun _ : UInt32 => Frame
  deriving DecidableEq

namespace FrameTable

/-! ## The table -/

/-- No order is open. -/
def empty : FrameTable := ⟨0, ∅⟩

/-- Whatever was open is forgotten. -/
def reset (t : FrameTable) : FrameTable := { t with depth := 0, frames := ∅ }

/-- Whether no order is open. -/
def isIdle (t : FrameTable) : Bool := t.depth = 0 ∧ t.frames = ∅

/-- The frame at the current depth. -/
def current? (t : FrameTable) : Option Frame := t.frames.lookup t.depth

/-- The offers written so far during the order at the current depth. -/
def touched? (t : FrameTable) : Option IdSet := t.current?.map Frame.touched

/-- Another frame at the current depth. -/
def put (t : FrameTable) (frame : Frame) : FrameTable :=
  { t with frames := t.frames.insert t.depth frame }

/-- An order starts. -/
def start (t : FrameTable) : FrameTable :=
  put { t with depth := t.depth + 1 } ⟨true, .empty⟩

/-- The innermost order is complete; nothing if none is open. -/
def complete? (t : FrameTable) : Option FrameTable :=
  if t.depth = 0 then none
  else some ⟨t.depth - 1, t.frames.erase t.depth⟩

/-- An offer is written during the order at the current depth. -/
def touch (t : FrameTable) (id : Word) : FrameTable :=
  match t.current? with
  | none => t
  | some frame =>
    if frame.locked then t.put { frame with touched := frame.touched.insert id } else t

/-- An offer is taken: how it relates to the order at the current depth, and the table
afterwards. -/
def settle (t : FrameTable) (id : Word) : Settlement × FrameTable :=
  match t.current? with
  | none => (.noOpenOrder, t)
  | some frame =>
    if id ∈ frame.touched then
      (.touched, t.put { frame with touched := frame.touched.erase id })
    else (.untouched, t)

/-- The table after one event. -/
def apply (t : FrameTable) : BookEvent → FrameTable
  | .orderStart => t.start
  | .orderComplete => t.complete?.getD t
  | .offerWrite id .. => t.touch id
  | .offerSuccess id | .offerFail id => (t.settle id).2
  | .offerRetract _ | .offerSuccessWithPosthookData _ | .offerFailWithPosthookData _ => t

/-- The table after a sequence of events. -/
def applyAll (t : FrameTable) (events : List BookEvent) : FrameTable := events.foldl apply t

theorem applyAll_concat (t : FrameTable) (events : List BookEvent) (e : BookEvent) :
    t.applyAll (events ++ [e]) = (t.applyAll events).apply e := by
  simp [applyAll]

theorem applyAll_append (t : FrameTable) (events more : List BookEvent) :
    t.applyAll (events ++ more) = (t.applyAll events).applyAll more := by
  simp [applyAll]

/-! ## A stack, laid out in the table -/

/-- The frames of a stack by depth. The innermost comes last. -/
def ofFrames : List IdSet → Finmap fun _ : UInt32 => Frame
  | [] => ∅
  | touched :: rest => (ofFrames rest).insert (UInt32.ofNat (rest.length + 1)) ⟨true, touched⟩

/-- The table of a nesting. -/
def ofNesting (n : Nesting) : FrameTable := ⟨UInt32.ofNat n.depth, ofFrames n.frames⟩

theorem mem_ofFrames {frames : List IdSet} (h : frames.length < 0x100000000) {d : UInt32} :
    d ∈ ofFrames frames ↔ 1 ≤ d.toNat ∧ d.toNat ≤ frames.length := by
  induction frames with
  | nil =>
      simp only [ofFrames, Finmap.notMem_empty, List.length_nil, false_iff]
      omega
  | cons touched rest ih =>
      rw [List.length_cons] at h ⊢
      have hkey : d = UInt32.ofNat (rest.length + 1) ↔ d.toNat = rest.length + 1 := by
        rw [← UInt32.toNat_inj, UInt32.toNat_ofNat_of_lt' h]
      rw [ofFrames, Finmap.mem_insert, hkey, ih (by omega)]
      omega

theorem locked_of_lookup_ofFrames {frames : List IdSet} {d : UInt32} {frame : Frame}
    (h : (ofFrames frames).lookup d = some frame) : frame.locked = true := by
  induction frames with
  | nil => cases h
  | cons touched rest ih =>
      by_cases hd : d = UInt32.ofNat (rest.length + 1)
      · rw [ofFrames, hd, Finmap.lookup_insert] at h
        rw [← Option.some.inj h]
      · rw [ofFrames, Finmap.lookup_insert_of_ne _ hd] at h
        exact ih h

@[simp] theorem current?_ofNesting (n : Nesting) :
    (ofNesting n).current? = n.touched?.map (Frame.mk true) := by
  obtain ⟨_ | ⟨touched, rest⟩⟩ := n
  · rfl
  · exact Finmap.lookup_insert _

@[simp] theorem touched?_ofNesting (n : Nesting) : (ofNesting n).touched? = n.touched? := by
  simp [touched?, Function.comp_def]

/-- Another set for the innermost order. -/
theorem put_ofNesting (touched other : IdSet) (rest : List IdSet) :
    (ofNesting ⟨touched :: rest⟩).put ⟨true, other⟩ = ofNesting ⟨other :: rest⟩ := by
  show FrameTable.mk _ _ = FrameTable.mk _ _
  congr 1
  exact Finmap.insert_insert _

theorem start_ofNesting (n : Nesting) : (ofNesting n).start = ofNesting n.start := by
  have hdepth : UInt32.ofNat n.depth + 1 = UInt32.ofNat (n.depth + 1) :=
    (UInt32.ofNat_add _ _).symm
  simp only [start, put, ofNesting, hdepth]
  rfl

theorem touch_ofNesting (n : Nesting) (id : Word) :
    (ofNesting n).touch id = ofNesting (n.touch id) := by
  obtain ⟨_ | ⟨touched, rest⟩⟩ := n
  · rfl
  · simp only [touch, current?_ofNesting, Nesting.touched?, List.head?_cons, Option.map_some,
      if_true]
    exact put_ofNesting touched _ rest

theorem settle_ofNesting (n : Nesting) (id : Word) :
    (ofNesting n).settle id = ((n.settle id).1, ofNesting (n.settle id).2) := by
  obtain ⟨_ | ⟨touched, rest⟩⟩ := n
  · rfl
  · simp only [settle, current?_ofNesting, Nesting.touched?, Nesting.settle, List.head?_cons,
      Option.map_some]
    by_cases hid : id ∈ touched
    · simp only [if_pos hid, put_ofNesting]
    · simp only [if_neg hid]

/-- The frame that a completion takes away is the innermost order's, as no outer one has its
depth. -/
theorem complete?_ofNesting {n : Nesting} (h : n.depth < 0x100000000) :
    (ofNesting n).complete? = n.complete?.map ofNesting := by
  obtain ⟨_ | ⟨touched, rest⟩⟩ := n
  · rfl
  have hlength : rest.length + 1 < 0x100000000 := h
  have hne : UInt32.ofNat (rest.length + 1) ≠ 0 := by
    rw [← UInt32.toNat_inj.ne, UInt32.toNat_ofNat_of_lt' hlength]
    exact Nat.succ_ne_zero _
  have hdepth : UInt32.ofNat (rest.length + 1) - 1 = UInt32.ofNat rest.length := by
    rw [UInt32.ofNat_add]
    exact UInt32.add_sub_cancel _ _
  have hfresh : UInt32.ofNat (rest.length + 1) ∉ ofFrames rest := by
    rw [mem_ofFrames (by omega), UInt32.toNat_ofNat_of_lt' hlength]
    omega
  have herase : (ofFrames (touched :: rest)).erase (UInt32.ofNat (rest.length + 1)) =
      ofFrames rest := by
    refine Finmap.ext_lookup fun d => ?_
    by_cases hd : d = UInt32.ofNat (rest.length + 1)
    · rw [hd, Finmap.lookup_erase, Finmap.lookup_eq_none.mpr hfresh]
    · rw [Finmap.lookup_erase_ne hd, ofFrames, Finmap.lookup_insert_of_ne _ hd]
  simp only [complete?, ofNesting, Nesting.depth, List.length_cons, if_neg hne, hdepth, herase]
  rfl

/-- One event does to the table what it does to the stack. -/
theorem ofNesting_apply {n : Nesting} (h : n.depth < 0x100000000) (e : BookEvent) :
    (ofNesting n).apply e = ofNesting (n.apply e) := by
  cases e with
  | orderStart => exact start_ofNesting n
  | orderComplete =>
      simp only [apply, Nesting.apply, complete?_ofNesting h]
      cases n.complete? <;> rfl
  | offerWrite id => exact touch_ofNesting n id
  | offerSuccess id | offerFail id => simp only [apply, Nesting.apply, settle_ofNesting]
  | offerRetract | offerSuccessWithPosthookData | offerFailWithPosthookData => rfl

end FrameTable

/-! ## Whole histories -/

/-- At no time are more orders open than the counter can count. -/
def FewOpen (events : List BookEvent) : Prop :=
  ∀ front, front <+: events → (Nesting.idle.applyAll front).depth < 0x100000000

/-- There are never more orders open than there were events. -/
theorem Nesting.depth_applyAll_le (events : List BookEvent) :
    (idle.applyAll events).depth ≤ events.length := by
  induction events using List.reverseRecOn with
  | nil => exact Nat.le_refl 0
  | append_singleton events e ih =>
      rw [applyAll_concat, depth_apply, List.length_append, List.length_singleton]
      cases e <;> simp only <;> omega

namespace FewOpen

theorem of_length (h : events.length < 0x100000000) : FewOpen events := by
  intro front hfront
  exact (Nesting.depth_applyAll_le front).trans_lt (hfront.length_le.trans_lt h)

theorem depth_lt (h : FewOpen events) : (Nesting.idle.applyAll events).depth < 0x100000000 :=
  h events (List.prefix_refl events)

theorem of_prefix {front : List BookEvent} (h : FewOpen events) (hfront : front <+: events) :
    FewOpen front := fun _ h' => h _ (h'.trans hfront)

end FewOpen

namespace FrameTable

/-- The table runs as the stack does. -/
theorem applyAll_empty (h : FewOpen events) :
    empty.applyAll events = ofNesting (Nesting.idle.applyAll events) := by
  induction events using List.reverseRecOn with
  | nil => rfl
  | append_singleton events e ih =>
      have hfront := h.of_prefix (List.prefix_append events [e])
      rw [applyAll_concat, Nesting.applyAll_concat, ih hfront, ofNesting_apply hfront.depth_lt]

theorem depth_ofNesting {n : Nesting} (h : n.depth < 0x100000000) :
    (ofNesting n).depth.toNat = n.depth := UInt32.toNat_ofNat_of_lt' h

theorem depth_eq_zero_iff {n : Nesting} (h : n.depth < 0x100000000) :
    (ofNesting n).depth = 0 ↔ n.depth = 0 := by
  rw [← UInt32.toNat_inj, depth_ofNesting h, UInt32.toNat_zero]

theorem isIdle_ofNesting {n : Nesting} (h : n.depth < 0x100000000) :
    (ofNesting n).isIdle = n.isIdle := by
  rw [Bool.eq_iff_iff, Nesting.isIdle_iff, isIdle, decide_eq_true_iff, depth_eq_zero_iff h]
  refine and_iff_left_of_imp fun hdepth => ?_
  rw [ofNesting, List.eq_nil_of_length_eq_zero hdepth]
  rfl

/-- The table says of the open orders what the nesting says of them. -/
structure Agrees (t : FrameTable) (n : Nesting) : Prop where
  depth : t.depth.toNat = n.depth
  isIdle : t.isIdle = n.isIdle
  touched? : t.touched? = n.touched?
  settle : ∀ id, (t.settle id).1 = (n.settle id).1

theorem agrees_ofNesting {n : Nesting} (h : n.depth < 0x100000000) : (ofNesting n).Agrees n where
  depth := depth_ofNesting h
  isIdle := isIdle_ofNesting h
  touched? := touched?_ofNesting n
  settle id := by rw [settle_ofNesting]

/-- There is a frame at the current depth unless the depth is zero. -/
theorem isSome_touched?_ofNesting {n : Nesting} (h : n.depth < 0x100000000) :
    (ofNesting n).touched?.isSome = true ↔ 0 < (ofNesting n).depth := by
  rw [touched?_ofNesting, UInt32.lt_iff_toNat_lt, depth_ofNesting h, UInt32.toNat_zero]
  obtain ⟨_ | ⟨touched, rest⟩⟩ := n <;> simp [Nesting.touched?, Nesting.depth]

theorem settle_eq_noOpenOrder_iff {n : Nesting} (h : n.depth < 0x100000000) (id : Word) :
    ((ofNesting n).settle id).1 = .noOpenOrder ↔ (ofNesting n).depth = 0 := by
  rw [settle_ofNesting, depth_eq_zero_iff h]
  obtain ⟨_ | ⟨touched, rest⟩⟩ := n
  · exact iff_of_true rfl rfl
  · refine iff_of_false ?_ (Nat.succ_ne_zero _)
    by_cases hid : id ∈ touched <;> simp [Nesting.settle, hid]

/-- An order in which every start has its completion leaves the table as it was. -/
theorem applyAll_order {inside own : List BookEvent} (hmatched : Matched inside own)
    (hfew : FewOpen (events ++ .orderStart :: inside)) :
    (empty.applyAll events).applyAll (.orderStart :: (inside ++ [.orderComplete])) =
      empty.applyAll events := by
  have hfront := hfew.of_prefix (List.prefix_append events _)
  rw [← List.cons_append, applyAll_concat, ← applyAll_append, applyAll_empty hfew,
    ofNesting_apply hfew.depth_lt, ← Nesting.applyAll_concat, List.append_assoc,
    List.cons_append, Nesting.applyAll_append, Nesting.applyAll_order hmatched,
    applyAll_empty hfront]

end FrameTable

/-- **The open orders, counted.** Counter and table start out empty or reset, and as many events as
one likes are applied, with never more orders open at one time than the counter can count. Then:

* the frames stand at the depths from one up to the counter, and each of them is locked;
* so the table is idle, or settles an offer with no order open, exactly if the counter is zero, and
  there is a set of offers written exactly if it is not;
* what the table says of the open orders, the nesting of a book that the same events were applied
  to says too;
* an order that starts now leaves both as they were once it is complete, whatever is written,
  settled or retracted in it, if every order that starts within it is complete by then and no
  other is. -/
theorem frames_follow_depth {fresh : FrameTable}
    (hfresh : fresh = .empty ∨ ∃ t : FrameTable, fresh = t.reset) (first : Book)
    (hfew : FewOpen events) :
    let t := fresh.applyAll events
    let s := BookState.applyAll ⟨first, .idle⟩ events
    (∀ d, d ∈ t.frames ↔ 1 ≤ d ∧ d ≤ t.depth) ∧
      (∀ d frame, t.frames.lookup d = some frame → frame.locked = true) ∧
      (t.isIdle = true ↔ t.depth = 0) ∧
      (t.touched?.isSome = true ↔ 0 < t.depth) ∧
      (∀ id, (t.settle id).1 = .noOpenOrder ↔ t.depth = 0) ∧
      t.Agrees s.nesting ∧
      ∀ inside own, Matched inside own → FewOpen (events ++ .orderStart :: inside) →
        let order := BookEvent.orderStart :: (inside ++ [.orderComplete])
        t.applyAll order = t ∧ (s.applyAll order).nesting = s.nesting := by
  intro t s
  have hempty : fresh = .empty := hfresh.elim id fun ⟨_, h⟩ => h
  have hnesting : s.nesting = Nesting.idle.applyAll events := BookState.nesting_applyAll _ events
  have hdepth : s.nesting.depth < 0x100000000 := hnesting ▸ hfew.depth_lt
  have htable : t = .ofNesting s.nesting := by
    rw [hnesting, ← FrameTable.applyAll_empty hfew, ← hempty]
  have hzero : t.depth = 0 ↔ s.nesting.depth = 0 := htable ▸ FrameTable.depth_eq_zero_iff hdepth
  have hagrees : t.Agrees s.nesting := htable ▸ FrameTable.agrees_ofNesting hdepth
  refine ⟨fun d => ?_, fun d frame => ?_, ?_, ?_, fun id => ?_, hagrees, ?_⟩
  · rw [UInt32.le_iff_toNat_le, UInt32.le_iff_toNat_le, hagrees.depth, htable]
    exact FrameTable.mem_ofFrames hdepth
  · rw [htable]
    exact FrameTable.locked_of_lookup_ofFrames
  · rw [hagrees.isIdle, Nesting.isIdle_iff, hzero]
  · rw [htable]
    exact FrameTable.isSome_touched?_ofNesting hdepth
  · rw [htable]
    exact FrameTable.settle_eq_noOpenOrder_iff hdepth id
  · intro inside own hmatched hroom order
    refine ⟨?_, ?_⟩
    · simp only [t, hempty]
      exact FrameTable.applyAll_order hmatched hroom
    · rw [BookState.nesting_applyAll, Nesting.applyAll_order hmatched]

/-- Two orders were open when the table was reset, and two are open again, the inner one with an
offer written. A third one starts. It writes an offer, in it a fourth writes and takes another and
is complete, and then it takes its own and retracts the inner order's. When it is complete, the
table is what it was. -/
theorem frames_follow_depth_within_two_orders :
    let tick : Tick := ⟨3, by decide, by decide⟩
    let write : Word → BookEvent := fun id => .offerWrite id 0xdd tick 6 100000 2
    let fresh := FrameTable.empty.start.start.reset
    let events := [.orderComplete, .orderStart, write 1, .orderStart, write 2]
    let inside := [write 5, .orderStart, write 6, .offerSuccess 6, .orderComplete,
      .offerSuccess 5, .offerRetract 2]
    let own := [write 5, .offerSuccess 5, .offerRetract 2]
    let t := fresh.applyAll events
    FewOpen events ∧ Matched inside own ∧ FewOpen (events ++ .orderStart :: inside) ∧
      t.depth = 2 ∧ (∀ d, d ∈ t.frames ↔ 1 ≤ d ∧ d ≤ 2) ∧
      t.touched? = some (IdSet.empty.insert 2) ∧
      t.applyAll (.orderStart :: (inside ++ [.orderComplete])) = t := by
  intro tick write fresh events inside own t
  have hfew : FewOpen events := .of_length (by decide)
  have hmatched : Matched inside own :=
    .event (e := .offerRetract 2) rfl <| .event (e := .offerSuccess 5) rfl <|
      .order (.event (e := write 5) rfl .nil) <|
        .event (e := .offerSuccess 6) rfl <| .event (e := write 6) rfl .nil
  have hroom : FewOpen (events ++ .orderStart :: inside) := .of_length (by decide)
  obtain ⟨hkeys, -, -, -, -, hagrees, hreturns⟩ :=
    frames_follow_depth (.inr ⟨_, rfl⟩) (Book.empty 0) hfew
  have hdepth : t.depth = 2 := UInt32.toNat_inj.mp hagrees.depth
  rw [hdepth] at hkeys
  exact ⟨hfew, hmatched, hroom, hdepth, hkeys, hagrees.touched?, (hreturns _ _ hmatched hroom).1⟩

end OfferBook
