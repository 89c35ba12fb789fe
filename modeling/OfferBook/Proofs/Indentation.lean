import OfferBook.Proofs.Emission
import OfferBook.Proofs.Following

/-!
# The indentation of the listed events

The listing of events indents an event by the orders that are open around it, and it counts them on
its own: it never looks at the nesting of the pool, and it could not, because it is given the events
of a block only when all of the block was fed, and the pool is past them by then. Its count follows
a rule of its own too. A completion with no order open, which the nesting ignores, takes nothing off
a count of zero.

The two agree all the same. To say so, the listing is written once more with the nesting
(`nestedDisplay`): this one keeps the pool as it was before the block, has it apply the events one
at a time (`Pool.appliedAt`), and writes the line of each of them (`nestedLine`) with as many arrows
as the smaller of the two depths that the nesting has before and behind it. Whatever logs a block
has, both listings write the same, and the count ends at the depth of the nesting
(`display_eq_nestedDisplay`). A run only puts blocks in a row.

## Main results

* `eventLine_eq_nestedLine`, `depthAfter_eq`: one event in terms of the nesting.
* `showEvents_appliedAt`: the events of a block.
* `indentation_mirrors_nesting`: a run of the command, from a cold start on.
-/

namespace OfferBook

/-! ## What is applied, and when -/

namespace Pool

/-- An event that was applied, with the pool just before and just behind it. -/
structure Applied where
  before : Pool
  event : Located BookEvent
  after : Pool

/-- What a pool applies as logs are fed to it in turn. -/
def appliedAt (p : Pool) : List Log → List Applied
  | [] => []
  | log :: logs =>
    let fed := (p.onLog log).value
    (fed.applied.map fun e => ⟨p, e, fed.pool⟩).toList ++ fed.pool.appliedAt logs

/-- These are the events that are reported. -/
theorem event_appliedAt (p : Pool) (logs : List Log) :
    (p.appliedAt logs).map Applied.event = (p.onLogs logs).value.2 := by
  induction logs generalizing p with
  | nil => rfl
  | cons log logs ih =>
      rw [onLogs_cons, appliedAt, List.map_append, ih]
      cases (p.onLog log).value.applied <;> rfl

end Pool

namespace Command

namespace Listing

/-! ## The listing, written with the nesting -/

/-- The line of an event, written out: two spaces, an arrow for each order that is open both before
and behind the event, the index of its log and the event. -/
def nestedLine (colored : Bool) (a : Pool.Applied) : Piece :=
  let arrows := List.replicate (min a.before.nesting.depth a.after.nesting.depth) "   ↳ "
  let line := "  " ++ String.join arrows ++ toString a.event.logIndex ++ ": " ++ a.event.event.text
  .text ((inkOf a.event.event).paint colored line ++ "\n")

/-- What is written for events: the line of each, below a heading where the part of a later
transaction than that of the event before begins. -/
def nestedLines (colored : Bool) : (lastTx : Option Nat) → List Pool.Applied → List Piece
  | _, [] => []
  | lastTx, a :: rest =>
    (if opensTransaction ⟨0, lastTx⟩ a.event then [transactionHeading colored a.event] else []) ++
      nestedLine colored a :: nestedLines colored (some a.event.txIndex) rest

/-- The listing of a block, by the pool as it was before. -/
def nestedDisplay (colored : Bool) : Display Pool := fun before pool batch _ =>
  let title := .text ("\n\n" ++ heading colored '=' " Block Events " ++ "\n\n")
  let instant := .line (Ink.boldPurple.paint colored batch.instant.text)
  (title :: instant :: nestedLines colored none (before.appliedAt batch.logs), pool)

/-- An event is listed at the smaller of the depths around it. -/
theorem shownDepth_eq_min (n : Nesting) (lastTx : Option Nat) (e : BookEvent) :
    shownDepth ⟨n.depth, lastTx⟩ e = min n.depth (n.apply e).depth := by
  rw [Nesting.depth_apply]
  cases e <;> simp [shownDepth]

/-- A listing that has counted the depth before an event writes its line as it is written out. -/
theorem eventLine_eq_nestedLine (colored : Bool) (lastTx : Option Nat) {a : Pool.Applied}
    (h : a.after.nesting = a.before.nesting.apply a.event.event) :
    eventLine colored (shownDepth ⟨a.before.nesting.depth, lastTx⟩ a.event.event) a.event =
      nestedLine colored a := by
  rw [shownDepth_eq_min, ← h, eventLine, nestedLine, Piece.line]
  simp only [String.append_assoc]
  rfl

/-- The count behind an event is the depth behind it. -/
theorem depthAfter_eq (n : Nesting) (lastTx : Option Nat) (e : BookEvent) :
    depthAfter ⟨n.depth, lastTx⟩ e = (n.apply e).depth := by
  rw [Nesting.depth_apply]
  cases e <;> rfl

/-- The listing that starts at the depth of the nesting indents the events that a pool applies by
the depths around them, and ends at the depth of the nesting. -/
theorem showEvents_appliedAt (colored : Bool) (pool : Pool) (lastTx : Option Nat)
    (logs : List Log) :
    let applied := pool.appliedAt logs
    let shown :=
      showEvents colored ⟨pool.nesting.depth, lastTx⟩ (applied.map Pool.Applied.event)
    shown.1 = nestedLines colored lastTx applied ∧
      shown.2.depth = (pool.onLogs logs).value.1.nesting.depth := by
  induction logs generalizing pool lastTx with
  | nil => exact ⟨rfl, rfl⟩
  | cons log logs ih =>
      have hnesting := pool.nesting_onLog log
      simp only [Pool.appliedAt, Pool.onLogs_cons]
      cases happlied : (pool.onLog log).value.applied with
      | none =>
          simp only [happlied] at hnesting
          rw [← hnesting]
          exact ih (pool.onLog log).value.pool lastTx
      | some e =>
          simp only [happlied] at hnesting
          have hafter : after ⟨pool.nesting.depth, lastTx⟩ e =
              ⟨(pool.onLog log).value.pool.nesting.depth, some e.txIndex⟩ := by
            rw [hnesting, after, depthAfter_eq]
          obtain ⟨hwritten, hdepth⟩ := ih (pool.onLog log).value.pool (some e.txIndex)
          rw [← hafter] at hwritten hdepth
          have hline := eventLine_eq_nestedLine colored lastTx
            (a := ⟨pool, e, (pool.onLog log).value.pool⟩) hnesting
          refine ⟨?_, hdepth⟩
          simp only [Option.map_some, Option.toList_some, List.cons_append, List.nil_append,
            List.map_cons, showEvents, nestedLines, hwritten, showEvent, hline, List.append_assoc]
          rfl

/-- For a block of whatever logs, the listing that starts at the depth of the nesting writes what
the one written with the nesting does, and ends at the depth of the nesting. -/
theorem display_eq_nestedDisplay (colored : Bool) (pool : Pool) (batch : Batch) :
    let fed := (pool.onLogs batch.logs).value
    let shown := display colored pool.nesting.depth fed.1 batch fed.2
    shown.1 = (nestedDisplay colored pool fed.1 batch fed.2).1 ∧ shown.2 = fed.1.nesting.depth := by
  intro fed shown
  obtain ⟨hwritten, hdepth⟩ := showEvents_appliedAt colored pool none batch.logs
  rw [Pool.event_appliedAt] at hwritten hdepth
  exact ⟨congrArg (fun lines => _ :: _ :: lines) hwritten, hdepth⟩

end Listing

/-! ## Runs -/

/-- The run of the listing that is written with the nesting. -/
def nestedRun (colored : Bool) (source : Source) (items : Nat) (left : Option Nat) (pool : Pool)
    (feed : Feed) : Followed Pool :=
  (follow source (Listing.nestedDisplay colored) items left ⟨pool, feed, pool⟩).value

/-- A run writes what the one written with the nesting does, and wherever it is cut off, the count
of the listing is the depth of the nesting. -/
theorem follow_listing (colored : Bool) (source : Source) (items : Nat) (left : Option Nat)
    (pool : Pool) (feed : Feed) :
    let run := (follow source (Listing.display colored) items left
      ⟨pool, feed, pool.nesting.depth⟩).value
    let nested := nestedRun colored source items left pool feed
    run.written = nested.written ∧ run.ending = nested.ending ∧
      run.follower.pool = nested.follower.pool ∧
      run.follower.display = run.follower.pool.nesting.depth := by
  intro run nested
  let R : Pool → Nat → Pool → Prop := fun pool depth before =>
    depth = pool.nesting.depth ∧ before = pool
  have halike : run.Alike R nested := by
    refine follow_alike source _ ?_ items left feed ⟨rfl, rfl⟩
    rintro _ _ pool batch ⟨rfl, rfl⟩
    obtain ⟨hwritten, hdepth⟩ := Listing.display_eq_nestedDisplay colored pool batch
    exact ⟨hwritten, hdepth, rfl⟩
  exact ⟨halike.written, halike.ending, halike.pool, halike.kept.1⟩

/-- What the trace command does is told by the nesting of the pool. -/
structure Mirrored (colored : Bool) (source : Source) (numBlocks : Option Nat) (pool : Pool)
    (initial : Book) : Prop where
  /-- Between the two books, the blocks are written with the line of every event written out: its
  arrows are as many as the smaller of the depths before and behind it. -/
  written :
    let nested := nestedRun colored source source.limit numBlocks pool
      (Feed.start (next64 initial.block))
    (trace colored source numBlocks pool initial).value.written =
      showBook colored " Initial Book " initial ++ nested.written ++
        finalBook colored nested.ending nested.follower.pool
  /-- After any number of blocks, the count of the command is the depth of the nesting. -/
  counted : ∀ items,
    let behind := (follow source (Listing.display colored) items numBlocks
      ⟨pool, Feed.start (next64 initial.block), 0⟩).value.follower
    behind.display = behind.pool.nesting.depth

/-- The command starts counting at zero, and so does the nesting. -/
theorem mirrored_of_idle (colored : Bool) (source : Source) (numBlocks : Option Nat) {pool : Pool}
    (initial : Book) (hidle : pool.nesting = .idle) :
    Mirrored colored source numBlocks pool initial := by
  have hzero : pool.nesting.depth = 0 := by rw [hidle]; rfl
  have hruns := fun items => follow_listing colored source items numBlocks pool
    (Feed.start (next64 initial.block))
  rw [hzero] at hruns
  refine ⟨?_, fun items => (hruns items).2.2.2⟩
  obtain ⟨hwritten, hending, hpool, -⟩ := hruns source.limit
  simp only [trace, Traced.value_bind]
  rw [← hwritten, ← hending, ← hpool]
  rfl

/-- The trace command on a pool that is ready, unless there is nothing to start from. -/
theorem runOn_of_trace {o : Options} (h : o.action = .trace) (colored : Bool) (s : Session)
    (calls : List NodeCall) (pool : Pool) :
    (∃ fault, (runOn o colored s calls pool).value = .failed calls fault) ∨
      ∃ initial, pool.latest? = some initial ∧ (runOn o colored s calls pool).value =
        .ofFollowed calls
          (trace colored (sourceOf (orderBookFor o) s) o.numBlocks pool initial).value := by
  unfold runOn
  rw [h]
  cases pool.latest? with
  | none => exact .inl ⟨_, rfl⟩
  | some initial => exact .inr ⟨initial, rfl, rfl⟩

/-- **The indentation of the listed events.** On a pool in which no order is open, whatever comes
from the feed, however many blocks are wanted and whenever it is interrupted, the trace command
writes the line of every event with as many arrows as the smaller of the depths that the nesting of
the pool has just before and just behind it, and after every block its own count is the depth of the
nesting. On a cold start no order is open: whatever the node answers, a run of the command fails
before it writes anything, or is the trace of such a pool. -/
theorem indentation_mirrors_nesting (colored : Bool) (source : Source) (numBlocks : Option Nat)
    {pool : Pool} (initial : Book) (hidle : pool.nesting = .idle) :
    Mirrored colored source numBlocks pool initial ∧
      ∀ o s, o.action = .trace →
        let out := (run o colored s).value
        let source := sourceOf (orderBookFor o) s
        (out.written = [] ∧ out.fault.isSome) ∨
          ∃ calls pool initial, pool.nesting = .idle ∧ pool.latest? = some initial ∧
            out = .ofFollowed calls (trace colored source o.numBlocks pool initial).value ∧
            Mirrored colored source o.numBlocks pool initial := by
  refine ⟨mirrored_of_idle colored source numBlocks initial hidle, fun o s h => ?_⟩
  intro out source
  rcases run_cases o colored s with ⟨calls, fault, hrun⟩ | ⟨calls, pool, hcold, hrun⟩
  · left
    simp only [out, hrun]
    exact ⟨rfl, rfl⟩
  · rcases runOn_of_trace h colored s calls pool with ⟨fault, htrace⟩ |
      ⟨initial, hlatest, htrace⟩
    · left
      simp only [out, hrun, htrace]
      exact ⟨rfl, rfl⟩
    · right
      exact ⟨calls, pool, initial, hcold, hlatest, hrun.trans htrace,
        mirrored_of_idle colored source o.numBlocks initial hcold⟩

/-- A run that pulls one item, a batch that is wanted, writes what is written for it. -/
theorem written_follow_one {σ : Type} {source : Source} (display : Display σ) (pool : Pool)
    (kept : σ) {feed : Feed} {p : Pulled} {batch : Batch} {left : Option Nat}
    (hpull : (feed.pull source.answers source.patience).value = some p)
    (hitem : p.item = .ok batch) (hgoes : source.stops p.feed left = false) :
    let fed := (pool.onLogs batch.logs).value
    (follow source display 1 left ⟨pool, feed, kept⟩).value.written =
      (display kept fed.1 batch fed.2).1 := by
  rw [follow_of_wanted source display hpull hitem hgoes]
  exact List.append_nil _

/-- The one block that comes has a completion with no order open, then two orders that start one in
the other, and a completion of the inner one. The lines are indented as the orders are open around
them, and at the end of the block the command has counted one order, as many as are open. -/
theorem indentation_mirrors_nesting_open_orders :
    let market : Market := ⟨0xaa, 0xbb, 1⟩
    let initial := Book.empty 900
    let pool := (Pool.new "mangrove" .arbitrum market .default).restart 900 initial
    let logs := (Emitter.new market 901).emitAll
      [.orderComplete, .orderStart, .orderStart, .offerRetract 7, .orderComplete]
    let source : Source := ⟨fun f => ⟨.ok (some f.next), .ok logs⟩, 1, 1, fun _ => false⟩
    let behind := (follow source (Listing.display false) 1 none
      ⟨pool, Feed.start 901, 0⟩).value.follower
    pool.nesting = .idle ∧
      [Piece.text "  0: OrderComplete\n", .text "  1: OrderStart\n",
        .text "     ↳ 2: OrderStart\n", .text "     ↳    ↳ 3: OfferRetract \x7b id: 7 \x7d\n",
        .text "     ↳ 4: OrderComplete\n"] <:+:
        (trace false source none pool initial).value.written ∧
      behind.pool.nesting.depth = 1 ∧ behind.display = 1 := by
  intro market initial pool logs source behind
  have hidle : pool.nesting = .idle := rfl
  obtain ⟨hmirrored, -⟩ := indentation_mirrors_nesting false source none initial hidle
  have hstanding : logs.filter (fun log => !log.removed) = logs :=
    List.filter_eq_self.mpr (by decide +kernel)
  have hcanonical : (Feed.canonical logs).value = logs := by
    show (logs.filter fun log => !log.removed).mergeSort _ = logs
    rw [hstanding]
    exact List.mergeSort_of_pairwise (by decide +kernel)
  have hexpects : pool.Expects 901 0 :=
    ⟨History.wf_insert (History.wf_new _) initial, by rintro _ ⟨⟩; decide,
      ⟨initial, rfl, by decide⟩, nofun⟩
  have happlied := Emitter.onLogs_emitAll (e := Emitter.new market 901) (p := pool) rfl hexpects
    [.orderComplete, .orderStart, .orderStart, .offerRetract 7, .orderComplete] (by decide)
  have hpool : behind.pool = (pool.onLogs (Feed.canonical logs).value).value.1 := rfl
  have hdepth : behind.pool.nesting.depth = 1 := by
    rw [hpool, hcanonical, Pool.nesting_onLogs, happlied]
    rfl
  -- The events in the nested listing are those that the emitter wrote.
  obtain ⟨hlines, -⟩ := Listing.showEvents_appliedAt false pool none logs
  rw [Pool.event_appliedAt, happlied] at hlines
  refine ⟨hidle, ?_, hdepth, (hmirrored.counted 1).trans hdepth⟩
  have hpull : ((Feed.start 901).pull source.answers source.patience).value =
      some ⟨⟨902, [901]⟩, 0, .ok ⟨⟨901, 901⟩, (Feed.canonical logs).value⟩⟩ := rfl
  rw [hcanonical] at hpull
  have hgoes : source.stops ⟨902, [901]⟩ none = false := rfl
  have hblock := written_follow_one (Listing.nestedDisplay false) pool pool hpull rfl hgoes
  rw [hmirrored.written]
  show _ <:+: showBook _ _ _ ++ (nestedRun false source 1 none pool (Feed.start 901)).written ++ _
  rw [nestedRun, hblock, Listing.nestedDisplay, ← hlines]
  have hlisted : (Listing.showEvents false ⟨0, none⟩ ((Emitter.new market 901).located
      [.orderComplete, .orderStart, .orderStart, .offerRetract 7, .orderComplete])).1.tail =
      [.text "  0: OrderComplete\n", .text "  1: OrderStart\n",
        .text "     ↳ 2: OrderStart\n", .text "     ↳    ↳ 3: OfferRetract \x7b id: 7 \x7d\n",
        .text "     ↳ 4: OrderComplete\n"] := by
    decide +kernel
  rw [show pool.nesting.depth = 0 from rfl, ← hlisted]
  exact List.infix_append_of_infix_left (List.infix_append_of_infix_right
    ((List.tail_suffix _).trans (List.suffix_append [_, _] _)).isInfix)

end Command

end OfferBook
