import OfferBook.Proofs.Following
import OfferBook.Proofs.Unmarked

/-!
# Giving the screen back

The live view draws on a screen of its own, and whoever runs it gets the former screen back when the
run is complete, because no block is left or because it was interrupted. A run that a failure ends
does not get that far: the fault is returned from the middle of the loop, and the sequence that
leaves the screen is behind the loop. That a client asks again before it gives an error up changes
when this happens, not what happens then.

Whether a sequence is in the output is a question about characters, and texts are written among the
sequences. But only the sequences that enter and leave a screen have a question mark, so each
question mark in the output belongs to one of them, and where one of them is can be told from it
(`eq_or_later_of_append_mark`).

## Main results

* `onOwnScreen_of_unmarked`: which sequences an output has, and where.
* `unmarked_liveDisplay`: nothing that is written for a block enters or leaves a screen.
* `screen_left_iff_complete`: the live view leaves its screen exactly if the run is complete.
-/

namespace OfferBook.Command

/-! ## Where the sequences are -/

/-- The characters that enter the screen. -/
def entering : List Char := ScreenCommand.enterAlternate.text.toList

/-- The characters that leave it. -/
def leaving : List Char := ScreenCommand.leaveAlternate.text.toList

/-- An output on a screen of its own: it begins with entering the screen, and leaves it exactly if
the run is complete. Nothing is written behind that. -/
structure OnOwnScreen (complete : Prop) (output : String) : Prop where
  enters : entering <+: output.toList
  leaves_iff : leaving <:+: output.toList ↔ complete
  last : ∀ before after, output.toList = before ++ leaving ++ after → after = []

/-- A text that is split at its first mark and at some mark: the two are the same, or the second one
is in the rest behind the first. -/
theorem eq_or_later_of_append_mark {front front' rest rest' : List Char} (hfront : '?' ∉ front)
    (h : front ++ '?' :: rest = front' ++ '?' :: rest') :
    rest = rest' ∨ ∃ between, rest = between ++ '?' :: rest' := by
  rcases List.append_eq_append_iff.mp h with ⟨between, hlonger, hrest⟩ | ⟨between, hshorter, hrest⟩
  · cases between with
    | nil => exact .inl (List.cons.inj hrest).2
    | cons c between => exact .inr ⟨between, (List.cons.inj hrest).2⟩
  · cases between with
    | nil => exact .inl (List.cons.inj hrest).2.symm
    | cons c between =>
        obtain ⟨rfl, -⟩ := List.cons.inj hrest
        simp [hshorter] at hfront

/-- What is written between entering and the end has no marks. Then the screen is left where the
sequence for it stands at the end, and nowhere else. -/
theorem onOwnScreen_of_unmarked {complete : Prop} [Decidable complete] {output : String}
    {body : List Char} (hbody : '?' ∉ body)
    (h : output.toList = entering ++ (body ++ if complete then leaving else [])) :
    OnOwnScreen complete output := by
  have hentering : entering = "\x1b[".toList ++ '?' :: "1049h".toList := by decide
  have hleaving : leaving = "\x1b[".toList ++ '?' :: "1049l".toList := by decide
  have hlast : ∀ before after, output.toList = before ++ leaving ++ after →
      complete ∧ after = [] := by
    intro before after hsplit
    rw [h, hentering, hleaving, ← List.append_assoc before, List.append_assoc,
      List.append_assoc _ _ after, List.cons_append, List.cons_append] at hsplit
    -- The first mark is that of entering. It is not followed by what leaves.
    rcases eq_or_later_of_append_mark (by decide) hsplit with hfirst | ⟨between, hlater⟩
    · simp at hfirst
    · split at hlater
      next hcomplete =>
        have hmark : '?' ∉ "1049h".toList ++ body ++ "\x1b[".toList := by simp [hbody]
        rw [← List.append_assoc, ← List.append_assoc] at hlater
        rcases eq_or_later_of_append_mark hmark hlater with hend | ⟨behind, hend⟩
        · exact ⟨hcomplete, List.self_eq_append_right.mp hend⟩
        · have hmem : '?' ∈ "1049l".toList := by rw [hend]; simp
          simp at hmem
      next =>
        have hmem : '?' ∈ "1049h".toList ++ (body ++ []) := by rw [hlater]; simp
        simp [hbody] at hmem
  refine ⟨?_, ⟨?_, fun hcomplete => ?_⟩, fun before after hsplit => (hlast before after hsplit).2⟩
  · rw [h]
    exact List.prefix_append _ _
  · rintro ⟨before, after, hsplit⟩
    exact (hlast before after hsplit.symm).1
  · rw [h, if_pos hcomplete, ← List.append_assoc]
    exact (List.suffix_append _ _).isInfix

/-! ## What is written for a block -/

/-- Nothing that is written for a block has a mark. -/
theorem unmarked_liveDisplay (colored : Bool) (depth : Option Nat) (kept : Unit) (pool : Pool)
    (batch : Batch) (applied : List (Located BookEvent)) :
    ∀ piece ∈ (liveDisplay colored depth kept pool batch applied).1, Unmarked piece.written := by
  have htitle : Unmarked
      s!"{pool.market.text} :: {batch.instant.text} :: {applied.length} events applied\n" := by
    simp +decide [Market.unmarked_text, Instant.unmarked_text, toString]
  have hclear : Unmarked (Piece.screen .clear).written := by decide
  have hhome : Unmarked (Piece.screen .home).written := by decide
  simp only [liveDisplay, List.forall_mem_append, List.forall_mem_cons]
  refine ⟨⟨hclear, hhome, htitle, List.forall_mem_nil _⟩, ?_⟩
  cases pool.latest? with
  | none => exact List.forall_mem_nil _
  | some book => exact List.forall_mem_singleton.mpr (book.unmarked_compactView depth colored none)

theorem unmarked_writtenAll {pieces : List Piece} (h : ∀ piece ∈ pieces, Unmarked piece.written) :
    '?' ∉ (Piece.writtenAll pieces).toList := by
  rw [Piece.writtenAll, String.toList_join]
  simpa [Unmarked] using h

theorem toList_writtenAll_append (pieces more : List Piece) :
    (Piece.writtenAll (pieces ++ more)).toList =
      (Piece.writtenAll pieces).toList ++ (Piece.writtenAll more).toList := by
  simp [Piece.writtenAll, String.toList_join]

/-! ## The live view -/

/-- The live view enters its screen, and leaves it exactly if the run is complete. -/
theorem onOwnScreen_live (colored : Bool) (source : Source) (depth numBlocks : Option Nat)
    (pool : Pool) (initial : Book) :
    let followed := (live colored source depth numBlocks pool initial).value
    OnOwnScreen (followed.ending = .complete) (Piece.writtenAll followed.written) := by
  intro followed
  let run := (follow source (liveDisplay colored depth) source.limit numBlocks
    ⟨pool, Feed.start (next64 initial.block), ()⟩).value
  have hbody : ∀ piece ∈ [Piece.screen .clear, .screen .home] ++ run.written,
      Unmarked piece.written := by
    refine List.forall_mem_append.mpr ⟨by decide, ?_⟩
    exact forall_mem_written_follow source _ (unmarked_liveDisplay colored depth) _ _ _
  have hwritten : followed.written = [.screen .enterAlternate] ++
      ([.screen .clear, .screen .home] ++ run.written ++ leaveScreen run.ending) := by
    simp only [followed, live, Traced.value_bind]
    rfl
  have hleave : (Piece.writtenAll (leaveScreen run.ending)).toList =
      if run.ending = .complete then leaving else [] := by
    cases run.ending <;> rfl
  refine onOwnScreen_of_unmarked (unmarked_writtenAll hbody) ?_
  rw [hwritten, toList_writtenAll_append, toList_writtenAll_append _ (leaveScreen _), hleave]
  rfl

/-- A failure that is still wanted ends the live view. -/
theorem failed_live (colored : Bool) {source : Source} {depth numBlocks : Option Nat}
    {pool : Pool} {initial : Book} {batches : List Batch} {g : Feed} {p : Pulled} {fault : Fault}
    (hbatches : Feed.Delivers source.answers source.patience
      (Feed.start (next64 initial.block)) batches g)
    (hpull : (g.pull source.answers source.patience).value = some p)
    (hitem : p.item = .error fault) (hquiet : QuietUntil source.interrupted p.feed)
    (hlimit : batches.length < source.limit)
    (hwanted : ∀ n, numBlocks = some n → batches.length < n) :
    (live colored source depth numBlocks pool initial).value.ending = .failed fault := by
  have hrun := failed_of_delivered source (liveDisplay colored depth) hbatches (Nat.le_refl _) hpull
    hitem hquiet pool () hlimit hwanted
  simp only [live, Traced.value_bind, hrun]
  rfl

/-- A run that a failure ended does not leave the screen. -/
theorem OnOwnScreen.not_leaves {σ : Type} {f : Followed σ} {fault : Fault} {output : String}
    (h : OnOwnScreen (f.ending = .complete) output) (hfailed : f.ending = .failed fault) :
    ¬ leaving <:+: output.toList := by
  intro hleaves
  cases hfailed.symm.trans (h.leaves_iff.mp hleaves)

/-- What the live view does with the screen of whoever runs it. -/
structure TakesScreen (colored : Bool) (source : Source) (depth numBlocks : Option Nat)
    (pool : Pool) (initial : Book) : Prop where
  /-- It enters a screen of its own, and leaves that screen exactly if it is complete, once and as
  the last thing written. -/
  own :
    let followed := (live colored source depth numBlocks pool initial).value
    OnOwnScreen (followed.ending = .complete) (Piece.writtenAll followed.written)
  /-- If batches come from the feed and then a failure, and another block is still wanted, it ends
  with the failure and does not leave the screen. -/
  kept : ∀ batches g p fault,
    Feed.Delivers source.answers source.patience (Feed.start (next64 initial.block)) batches g →
    (g.pull source.answers source.patience).value = some p → p.item = .error fault →
    QuietUntil source.interrupted p.feed → batches.length < source.limit →
    (∀ n, numBlocks = some n → batches.length < n) →
      let followed := (live colored source depth numBlocks pool initial).value
      followed.ending = .failed fault ∧
        ¬ leaving <:+: (Piece.writtenAll followed.written).toList

theorem takesScreen (colored : Bool) (source : Source) (depth numBlocks : Option Nat)
    (pool : Pool) (initial : Book) :
    TakesScreen colored source depth numBlocks pool initial := by
  have hown := onOwnScreen_live colored source depth numBlocks pool initial
  refine ⟨hown, fun batches g p fault hbatches hpull hitem hquiet hlimit hwanted => ?_⟩
  have hfailed : (live colored source depth numBlocks pool initial).value.ending = .failed fault :=
    failed_live colored hbatches hpull hitem hquiet hlimit hwanted
  exact ⟨hfailed, hown.not_leaves hfailed⟩

/-- The live command on a pool that is ready is the live view, unless there is nothing to show. -/
theorem runOn_of_live {o : Options} {shown : Nat} (h : o.action = .live shown) (colored : Bool)
    (s : Session) (calls : List NodeCall) (pool : Pool) :
    (∃ fault, (runOn o colored s calls pool).value = .failed calls fault) ∨
      ∃ depth initial, pool.latest? = some initial ∧ (runOn o colored s calls pool).value =
        .ofFollowed calls
          (live colored (sourceOf (orderBookFor o) s) depth o.numBlocks pool initial).value := by
  unfold runOn
  rw [h]
  cases pool.latest? with
  | none => exact .inl ⟨_, rfl⟩
  | some initial => exact .inr ⟨_, initial, rfl, rfl⟩

/-- A run of the live command fails before anything is written, or is one of the live view. -/
theorem run_of_live {o : Options} {shown : Nat} (h : o.action = .live shown) (colored : Bool)
    (s : Session) :
    (∃ calls fault, (run o colored s).value = .failed calls fault) ∨
      ∃ calls depth pool initial, pool.latest? = some initial ∧ (run o colored s).value =
        .ofFollowed calls
          (live colored (sourceOf (orderBookFor o) s) depth o.numBlocks pool initial).value := by
  rcases run_cases o colored s with hfailed | ⟨calls, pool, -, hrun⟩
  · exact .inl hfailed
  · rw [hrun]
    rcases runOn_of_live h colored s calls pool with ⟨fault, hshown⟩ |
      ⟨depth, initial, hlatest, hshown⟩
    · exact .inl ⟨calls, fault, hshown⟩
    · exact .inr ⟨calls, depth, pool, initial, hlatest, hshown⟩

theorem complete_iff_of_ofFollowed {σ : Type} (calls : List NodeCall) (f : Followed σ) :
    f.ending = .complete ↔
      (Outcome.ofFollowed calls f).fault = none ∧ (Outcome.ofFollowed calls f).givenUp = false := by
  cases h : f.ending <;> simp [Outcome.ofFollowed, Ending.fault?, h]

/-- **The live view gives the screen back exactly if it is complete.** Whatever comes from the feed,
however deep the view is, however many blocks are wanted and whenever it is interrupted, the output
of the live view begins with entering a screen. It leaves the screen exactly if the run is complete,
once and as the last thing written. If batches come from the feed and then a failure, where another
block is wanted still, the run ends with that failure, and so the screen is not given back. The
command as a whole, through whatever client it asks the node, fails before it writes anything, or it
is such a live view, and gives the screen back exactly if it ends without a fault. -/
theorem screen_left_iff_complete (colored : Bool) (source : Source) (depth numBlocks : Option Nat)
    (pool : Pool) (initial : Book) :
    TakesScreen colored source depth numBlocks pool initial ∧
      ∀ o shown s, o.action = .live shown →
        let out := (run o colored s).value
        let source := sourceOf (orderBookFor o) s
        (out.written = [] ∧ out.fault.isSome) ∨
          ∃ calls depth pool initial, pool.latest? = some initial ∧
            out = .ofFollowed calls (live colored source depth o.numBlocks pool initial).value ∧
            TakesScreen colored source depth o.numBlocks pool initial ∧
            OnOwnScreen (out.fault = none ∧ out.givenUp = false)
              (Piece.writtenAll out.written) := by
  refine ⟨takesScreen colored source depth numBlocks pool initial, fun o shown s h => ?_⟩
  intro out source
  rcases run_of_live h colored s with ⟨calls, fault, hrun⟩ |
    ⟨calls, depth, pool, initial, hlatest, hrun⟩
  · left
    simp only [out, hrun]
    exact ⟨rfl, rfl⟩
  · right
    have htakes := takesScreen colored source depth o.numBlocks pool initial
    refine ⟨calls, depth, pool, initial, hlatest, hrun, htakes, ?_⟩
    simp only [out, hrun]
    rw [← complete_iff_of_ofFollowed]
    exact htakes.own

/-- The node knows one block behind the book, and says of the next one that there is none, which the
usual client takes for an answer. One block is shown, and the screen is not given back. -/
theorem screen_kept_on_failure :
    let initial := Book.empty 900
    let pool := (Pool.new "mangrove" .arbitrum ⟨0xaa, 0xbb, 1⟩ .default).restart 900 initial
    let node : Node := ⟨.ok 42161, .ok 901, fun _ => .ok [], [⟨901, 100, [], []⟩]⟩
    let source := sourceOf 0xdd (.undisturbed node)
    let followed := (live false source (some 10) (some 5) pool initial).value
    let output := (Piece.writtenAll followed.written).toList
    followed.ending = .failed (.transport (.reply (-32001) "no block")) ∧ entering <+: output ∧
      ¬ leaving <:+: output := by
  intro initial pool node source followed output
  have hbatches : Feed.Delivers source.answers source.patience (Feed.start 901)
      [⟨⟨901, 100⟩, (Feed.canonical []).value⟩] ⟨902, [901]⟩ := .cons rfl rfl (.nil _)
  have hfailed : followed.ending = .failed (.transport (.reply (-32001) "no block")) :=
    failed_live false hbatches rfl rfl (fun _ _ => rfl) (by decide) (by rintro n ⟨⟩; decide)
  have hscreen := onOwnScreen_live false source (some 10) (some 5) pool initial
  exact ⟨hfailed, hscreen.enters, hscreen.not_leaves hfailed⟩

end OfferBook.Command
