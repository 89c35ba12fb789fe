import OfferBook.Emitter
import OfferBook.Pool
import OfferBook.Proofs.Effect
import OfferBook.Proofs.Retention

/-!
# Feeding one log to a pool

A log is either refused, and then the pool stays as it is, or it is accepted. `Accepts` lists
what acceptance takes: the log stands in a block, its block was not abandoned, the pool has a
snapshot, and neither that snapshot nor the seeding nor the last log reflects the log already.

An accepted log does one thing, whatever it is. The event it carries for the pool's market, if
it carries one, is applied to the latest snapshot and the nesting, and the outcome is stored
under the block of the log. A log without such an event in the block of the latest snapshot
stores that snapshot once more, which on a well-formed history changes nothing; so the case
that `advance` makes of it disappears (`onLog_of_accepts`).

The second half is about what acceptance depends on. As logs are fed, the latest block and the
last position only grow, so a log once refused stays refused (`refuses_onLog`), and a log with
an index is refused as soon as it was fed (`refuses_self`).

## Main results

* `onLog_of_accepts`, `onLog_of_refuses`: what feeding a log comes to.
* `onLog_frame`: what feeding leaves alone.
* `nesting_onLog`: the nesting follows the events applied.
* `refuses_onLog`, `refuses_self`: refusal is for good, and follows the first delivery.
-/

namespace OfferBook

/-- The event that a route hands to the book, if it hands one. -/
def Route.event? : Route → Option BookEvent
  | .apply e => some e
  | _ => none

/-- The event that a log carries for the market with the given hash. -/
def Log.event? (market : Word) (log : Log) : Option BookEvent := (Route.ofLog market log).event?

/-- A log carries an event for a market if it can be read, names the market and reports something
that a book reacts to. -/
theorem Log.event?_eq_some_iff {market : Word} {log : Log} {e : BookEvent} :
    log.event? market = some e ↔ ∃ reported, Contract.read log.topics log.data = .event reported ∧
      BookEvent.ofContract reported = .ok (some (market, e)) := by
  unfold Log.event? Route.ofLog
  cases hread : Contract.read log.topics log.data with
  | event reported =>
      simp only [Route.ofEvent, Contract.Reading.event.injEq, exists_eq_left']
      cases BookEvent.ofContract reported with
      | error out => simp [Route.event?]
      | ok outcome =>
          cases outcome with
          | none => simp [Route.event?]
          | some tagged =>
              by_cases htag : tagged.1 = market
              · simp [Route.event?, htag, Prod.ext_iff]
              · simp [Route.event?, htag, Prod.ext_iff]
  | _ => simp [Route.event?]

/-- The event that a log carries names one market only. -/
theorem Log.market_of_event? {market other : Word} {log : Log} {e e' : BookEvent}
    (h : log.event? market = some e) (h' : log.event? other = some e') : market = other := by
  obtain ⟨reported, hread, hof⟩ := event?_eq_some_iff.mp h
  obtain ⟨reported', hread', hof'⟩ := event?_eq_some_iff.mp h'
  obtain rfl : reported = reported' := by simpa [hread] using hread'
  have htags := hof.symm.trans hof'
  exact congrArg Prod.fst (Option.some.inj (Except.ok.inj htags))

/-- The route of an emitted log is that of the event it was written of. -/
theorem Emitter.ofLog_emit (e : Emitter) (market : Word) (reported : Contract.Event) :
    Route.ofLog market (e.emit reported).1 = Route.ofEvent market reported := by
  have hread : Contract.read (e.emit reported).1.topics (e.emit reported).1.data =
      .event reported := by
    rw [← Contract.read_encode reported [], List.append_nil]
    rfl
  rw [Route.ofLog, hread]

/-- The log that an emitter writes of a book event of its market is routed to that event. -/
theorem Emitter.ofLog_emitBook (e : Emitter) (event : BookEvent) :
    Route.ofLog e.market.hash (e.emitBook event).1 = .apply event := by
  have hof : BookEvent.ofContract (e.eventOf event) = .ok (some (e.market.hash, event)) := by
    cases event <;>
      simp [eventOf, BookEvent.ofContract, Tick.toInt_word, Tick.ofInt?_val,
        Word.clamp64_ofUInt64]
  rw [emitBook, ofLog_emit, Route.ofEvent, hof]
  exact if_pos rfl

/-- The log that an emitter writes of an event carries that event for the emitter's market. -/
theorem Emitter.event?_emitBook (e : Emitter) (event : BookEvent) :
    (e.emitBook event).1.event? e.market.hash = some event := by
  rw [Log.event?, ofLog_emitBook]
  rfl

/-- The state after an event, if there is one. -/
def BookState.follow (s : BookState) : Option BookEvent → BookState
  | some e => (s.apply e).value
  | none => s

theorem BookState.follow_eq_applyAll (s : BookState) (e : Option BookEvent) :
    s.follow e = s.applyAll e.toList := by
  cases e <;> rfl

/-! ## Positions -/

theorem positionLe_iff {a b : Nat × Nat} :
    positionLe a b = true ↔ a.1 < b.1 ∨ a.1 = b.1 ∧ a.2 ≤ b.2 := by
  simp [positionLe]

/-- One position comes before another exactly if the other is not at or before it. -/
theorem positionLe_eq_false_iff {a b : Nat × Nat} :
    positionLe b a = false ↔ Prod.Lex (· < ·) (· < ·) a b := by
  rw [← Bool.not_eq_true, positionLe_iff, Prod.lex_def]
  omega

theorem positionLe_refl (a : Nat × Nat) : positionLe a a = true :=
  positionLe_iff.mpr (.inr ⟨rfl, Nat.le_refl _⟩)

theorem positionLe_trans {a b c : Nat × Nat} (hab : positionLe a b = true)
    (hbc : positionLe b c = true) : positionLe a c = true := by
  rw [positionLe_iff] at *
  omega

theorem positionLe_total {a b : Nat × Nat} (h : positionLe a b = false) :
    positionLe b a = true := by
  have hab := mt positionLe_iff.mpr (by simp [h] : ¬ positionLe a b = true)
  rw [positionLe_iff]
  omega

theorem Log.block_of_position? {log : Log} {block index : Nat}
    (h : log.position? = some (block, index)) : log.block = some block := by
  unfold position? at h
  cases hb : log.block with
  | none => simp [hb] at h
  | some b =>
      cases hi : log.index with
      | none => simp [hb, hi] at h
      | some i =>
          obtain ⟨rfl, -⟩ : b = block ∧ i = index := by simpa [hb, hi] using h
          rfl

namespace Pool

variable {p : Pool} {log : Log} {latest : Book} {block : Nat}

/-! ## Accepted and refused logs -/

/-- The pool takes the log into account: with this latest snapshot and at this block. -/
structure Accepts (p : Pool) (log : Log) (latest : Book) (block : Nat) : Prop where
  placed : log.block = some block
  standing : log.removed = false
  latest_eq : p.latest? = some latest
  fresh : p.reflects latest block log.position? = false

/-- The pool takes no account of the log. -/
def Refuses (p : Pool) (log : Log) : Prop := ∀ latest block, ¬ p.Accepts log latest block

theorem refuses_or_accepts (p : Pool) (log : Log) :
    p.Refuses log ∨ ∃ latest block, p.Accepts log latest block := by
  by_cases h : ∃ latest block, p.Accepts log latest block
  · exact .inr h
  · exact .inl fun latest block hacc => h ⟨latest, block, hacc⟩

/-- A refused log leaves the pool as it is, with one remark. -/
theorem onLog_eq_of_refuses (h : p.Refuses log) :
    ∃ remark ∈ [Notice.logWithoutBlock, .logOfAbandonedBlock, .logBeforeSeeding,
      .logAlreadyReflected], p.onLog log = ⟨⟨p, none⟩, [remark]⟩ := by
  unfold onLog
  split
  · exact ⟨_, by simp, rfl⟩
  next block hb =>
    split
    · exact ⟨_, by simp, rfl⟩
    next hr =>
      split
      · exact ⟨_, by simp, rfl⟩
      next latest hl =>
        split
        · exact ⟨_, by simp, rfl⟩
        next hf => exact absurd ⟨hb, by simpa using hr, hl, by simpa using hf⟩ (h latest block)

theorem onLog_of_refuses (h : p.Refuses log) : (p.onLog log).value = ⟨p, none⟩ := by
  obtain ⟨remark, -, hlog⟩ := onLog_eq_of_refuses h
  rw [hlog]

theorem onLog_eq_advance (h : p.Accepts log latest block) :
    p.onLog log = p.advance latest block log := by
  unfold onLog
  simp [h.placed, h.standing, h.latest_eq, h.fresh]

/-- Nothing reflects a log exactly if its block is no earlier than the latest snapshot and behind
the seeding, and its position is behind the last one. -/
theorem reflects_eq_false_iff {position : Option (Nat × Nat)} :
    p.reflects latest block position = false ↔
      latest.block ≤ block ∧ (∀ seeded, p.seededAt = some seeded → seeded < block) ∧
        ∀ here last, position = some here → p.lastLog = some last →
          positionLe here last = false := by
  simp only [reflects, Bool.or_eq_false_iff, decide_eq_false_iff_not, Nat.not_lt, and_assoc]
  refine and_congr_right fun _ => and_congr ?_ ?_
  · cases p.seededAt <;> simp
  · cases position <;> cases p.lastLog <;> simp

private theorem advance_event {e : BookEvent} (h : log.event? p.market.hash = some e) :
    let next := (BookState.apply ⟨latest, p.nesting⟩ e).value
    (p.advance latest block log).value =
      ⟨{ p with
          history := p.history.insert (next.book.atBlock block)
          nesting := next.nesting }.noteLast log.position?,
        some (locate log block e)⟩ := by
  unfold Log.event? at h
  unfold advance
  cases hr : Route.ofLog p.market.hash log with
  | apply e' =>
      obtain rfl : e' = e := by simpa [hr, Route.event?] using h
      rfl
  | _ => simp [hr, Route.event?] at h

private theorem advance_quiet (h : log.event? p.market.hash = none) :
    (p.advance latest block log).value =
      ⟨{ p with
          history := if latest.block < block then p.history.insert (latest.atBlock block)
            else p.history }.noteLast log.position?, none⟩ := by
  unfold Log.event? at h
  unfold advance
  cases hr : Route.ofLog p.market.hash log with
  | apply e => simp [hr, Route.event?] at h
  | _ =>
      simp only [Traced.value_bind]
      split <;> rfl

/-- What the pool makes of an accepted log: the state it works out. -/
def outcome (p : Pool) (log : Log) (latest : Book) : BookState :=
  BookState.follow ⟨latest, p.nesting⟩ (log.event? p.market.hash)

/-- An accepted log stores its outcome under its block and notes its position. -/
theorem onLog_of_accepts (hw : p.history.Wf) (h : p.Accepts log latest block) :
    (p.onLog log).value =
      ⟨{ p with
          history := p.history.insert ((p.outcome log latest).book.atBlock block)
          nesting := (p.outcome log latest).nesting }.noteLast log.position?,
        (log.event? p.market.hash).map (locate log block)⟩ := by
  rw [onLog_eq_advance h]
  cases he : log.event? p.market.hash with
  | some e =>
      rw [advance_event he]
      simp only [outcome, he]
      rfl
  | none =>
      rw [advance_quiet he]
      simp only [outcome, he, BookState.follow, Option.map_none]
      split
      · rfl
      next hb =>
        have hle := (reflects_eq_false_iff.mp h.fresh).1
        have hsame : latest.atBlock block = latest := by
          obtain rfl : latest.block = block := by omega
          rfl
        rw [hsame, History.insert_self hw h.latest_eq]

/-- A new pool takes no account of any log. -/
theorem refuses_new (dex : String) (d : Deployment) (m : Market) (c : PoolConfig) (log : Log) :
    (new dex d m c).Refuses log :=
  fun _ _ haccepts => nomatch haccepts.latest_eq

/-- An applied event is one that the log carries for the market of the pool. -/
theorem event?_of_applied {log : Log} {e : Located BookEvent} (hw : p.history.Wf)
    (h : (p.onLog log).value.applied = some e) :
    ∃ event, log.event? p.market.hash = some event := by
  rcases p.refuses_or_accepts log with hrefuses | ⟨latest, block, haccepts⟩
  · rw [onLog_of_refuses hrefuses] at h
    cases h
  · rw [onLog_of_accepts hw haccepts] at h
    obtain ⟨event, hevent, -⟩ := Option.map_eq_some_iff.mp h
    exact ⟨event, hevent⟩

/-! ## What feeding leaves alone -/

/-- Two pools that differ at most in history, nesting and last position. -/
structure SameSetting (p p' : Pool) : Prop where
  dex : p'.dex = p.dex
  fetcher : p'.fetcher = p.fetcher
  capacity : p'.history.capacity = p.history.capacity
  seededAt : p'.seededAt = p.seededAt
  failed : p'.failed = p.failed
  attempts : p'.attempts = p.attempts

theorem SameSetting.refl (p : Pool) : SameSetting p p := ⟨rfl, rfl, rfl, rfl, rfl, rfl⟩

theorem SameSetting.trans {p q r : Pool} (hpq : SameSetting p q) (hqr : SameSetting q r) :
    SameSetting p r :=
  ⟨hqr.dex.trans hpq.dex, hqr.fetcher.trans hpq.fetcher, hqr.capacity.trans hpq.capacity,
    hqr.seededAt.trans hpq.seededAt, hqr.failed.trans hpq.failed,
    hqr.attempts.trans hpq.attempts⟩

theorem SameSetting.market {p q : Pool} (h : SameSetting p q) : q.market = p.market :=
  congrArg Fetcher.market h.fetcher

theorem sameSetting_noteLast (p : Pool) (position : Option (Nat × Nat)) :
    SameSetting p (p.noteLast position) := by
  cases position <;> exact ⟨rfl, rfl, rfl, rfl, rfl, rfl⟩

@[simp] theorem history_noteLast (p : Pool) (position : Option (Nat × Nat)) :
    (p.noteLast position).history = p.history := by
  cases position <;> rfl

@[simp] theorem nesting_noteLast (p : Pool) (position : Option (Nat × Nat)) :
    (p.noteLast position).nesting = p.nesting := by
  cases position <;> rfl

theorem lastLog_noteLast (p : Pool) (position : Option (Nat × Nat)) :
    (p.noteLast position).lastLog = position.or p.lastLog := by
  cases position <;> rfl

/-- In outline, an accepted log replaces history and nesting, leaves a latest snapshot of its
block and notes its position. -/
private theorem onLog_outline (h : p.Accepts log latest block) :
    ∃ history nesting, (p.onLog log).value.pool =
        { p with history, nesting }.noteLast log.position? ∧
      history.capacity = p.history.capacity ∧ history.latest?.map Book.block = some block := by
  rw [onLog_eq_advance h]
  cases he : log.event? p.market.hash with
  | some e =>
      rw [advance_event he]
      exact ⟨_, _, rfl, rfl, by simp [Book.atBlock]⟩
  | none =>
      rw [advance_quiet he]
      refine ⟨_, p.nesting, rfl, ?_, ?_⟩
      · split <;> rfl
      · have hle := (reflects_eq_false_iff.mp h.fresh).1
        split
        · simp [Book.atBlock]
        · have hlatest : p.history.latest? = some latest := h.latest_eq
          rw [hlatest, Option.map_some]
          congr 1
          omega

/-- Feeding a log changes nothing but history, nesting and last position. -/
theorem onLog_frame (p : Pool) (log : Log) : SameSetting p (p.onLog log).value.pool := by
  rcases p.refuses_or_accepts log with h | ⟨latest, block, h⟩
  · rw [onLog_of_refuses h]
    exact .refl p
  · obtain ⟨history, nesting, hpool, hcap, -⟩ := onLog_outline h
    rw [hpool]
    have hset : SameSetting p { p with history, nesting } := ⟨rfl, rfl, hcap, rfl, rfl, rfl⟩
    exact hset.trans (sameSetting_noteLast _ _)

/-- The nesting behind a log is the one before it with the event applied that the log brought, if it
brought one. -/
theorem nesting_onLog (p : Pool) (log : Log) :
    (p.onLog log).value.pool.nesting =
      match (p.onLog log).value.applied with
      | some e => p.nesting.apply e.event
      | none => p.nesting := by
  rcases p.refuses_or_accepts log with h | ⟨latest, block, h⟩
  · rw [onLog_of_refuses h]
  · rw [onLog_eq_advance h]
    cases he : log.event? p.market.hash with
    | some e =>
        rw [advance_event he, nesting_noteLast]
        exact BookState.nesting_apply _ e
    | none => rw [advance_quiet he, nesting_noteLast]

/-! ## Refusal is for good -/

/-- The latest block and the last position never go back. -/
theorem onLog_advances (p : Pool) (log : Log) :
    (∀ b, (p.onLog log).value.pool.latest? = some b → ∃ a, p.latest? = some a ∧ a.block ≤ b.block) ∧
      ∀ a, p.lastLog = some a →
        ∃ b, (p.onLog log).value.pool.lastLog = some b ∧ positionLe a b = true := by
  rcases p.refuses_or_accepts log with h | ⟨latest, block, h⟩
  · rw [onLog_of_refuses h]
    exact ⟨fun b hb => ⟨b, hb, Nat.le_refl _⟩, fun a ha => ⟨a, ha, positionLe_refl a⟩⟩
  · obtain ⟨history, nesting, hpool, -, hlatest⟩ := onLog_outline h
    obtain ⟨hle, -, hfresh⟩ := reflects_eq_false_iff.mp h.fresh
    rw [hpool]
    constructor
    · intro b hb
      have hb' : history.latest? = some b := by simpa [Pool.latest?] using hb
      obtain rfl : b.block = block := by simpa [hb'] using hlatest
      exact ⟨latest, h.latest_eq, hle⟩
    · intro a ha
      rw [lastLog_noteLast]
      cases hpos : log.position? with
      | none => exact ⟨a, ha, positionLe_refl a⟩
      | some here => exact ⟨here, rfl, positionLe_total (hfresh here a hpos ha)⟩

/-- A log that is refused stays refused, whatever is fed in between. -/
theorem refuses_onLog (h : p.Refuses log) (other : Log) :
    (p.onLog other).value.pool.Refuses log := by
  intro latest' block hacc
  obtain ⟨hlatest, hlast⟩ := onLog_advances p other
  obtain ⟨latest, hl, hle⟩ := hlatest latest' hacc.latest_eq
  obtain ⟨hblock, hseeded, hfresh⟩ := reflects_eq_false_iff.mp hacc.fresh
  rw [(onLog_frame p other).seededAt] at hseeded
  refine h latest block ⟨hacc.placed, hacc.standing, hl, reflects_eq_false_iff.mpr
    ⟨Nat.le_trans hle hblock, hseeded, fun here last hhere hl => ?_⟩⟩
  obtain ⟨last', hl', hmono⟩ := hlast last hl
  cases hle : positionLe here last with
  | false => rfl
  | true =>
      have := positionLe_trans hle hmono
      simp [hfresh here last' hhere hl'] at this

/-- A log that has an index is refused once it was fed. -/
theorem refuses_self (hindex : log.index.isSome) : (p.onLog log).value.pool.Refuses log := by
  rcases p.refuses_or_accepts log with h | ⟨latest, block, h⟩
  · rw [onLog_of_refuses h]
    exact h
  · obtain ⟨history, nesting, hpool, -, -⟩ := onLog_outline h
    obtain ⟨index, hindex⟩ := Option.isSome_iff_exists.mp hindex
    have hpos : log.position? = some (block, index) := by
      simp [Log.position?, h.placed, hindex]
    intro latest' block' hacc
    have hlast : (p.onLog log).value.pool.lastLog = some (block, index) := by
      rw [hpool, lastLog_noteLast, hpos]
      rfl
    have := (reflects_eq_false_iff.mp hacc.fresh).2.2 _ _ hpos hlast
    simp [positionLe_refl] at this

/-! ## Feeding several logs -/

theorem onLogs_nil (p : Pool) : (p.onLogs []).value = (p, []) := rfl

theorem onLogs_cons (p : Pool) (log : Log) (logs : List Log) :
    (p.onLogs (log :: logs)).value =
      (((p.onLog log).value.pool.onLogs logs).value.1,
        (p.onLog log).value.applied.toList ++ ((p.onLog log).value.pool.onLogs logs).value.2) := rfl

theorem onLogs_append (p : Pool) (logs more : List Log) :
    (p.onLogs (logs ++ more)).value.1 = ((p.onLogs logs).value.1.onLogs more).value.1 := by
  induction logs generalizing p with
  | nil => rfl
  | cons log rest ih =>
      rw [List.cons_append, onLogs_cons, onLogs_cons]
      exact ih _

/-- The nesting behind several logs is the one before them with the events applied that were
reported. -/
theorem nesting_onLogs (p : Pool) (logs : List Log) :
    (p.onLogs logs).value.1.nesting =
      p.nesting.applyAll ((p.onLogs logs).value.2.map Located.event) := by
  induction logs generalizing p with
  | nil => rfl
  | cons log rest ih =>
      have hlog := p.nesting_onLog log
      rw [onLogs_cons, ih, List.map_append, Nesting.applyAll_append, hlog]
      cases (p.onLog log).value.applied <;> rfl

/-- Refused logs at the front change nothing. -/
theorem onLogs_cons_of_refuses (h : p.Refuses log) (logs : List Log) :
    (p.onLogs (log :: logs)).value = (p.onLogs logs).value := by
  rw [onLogs_cons, onLog_of_refuses h]
  rfl

/-- Feeding logs changes nothing but history, nesting and last position. -/
theorem onLogs_frame (p : Pool) (logs : List Log) : SameSetting p (p.onLogs logs).value.1 := by
  induction logs generalizing p with
  | nil =>
      rw [onLogs_nil]
      exact .refl p
  | cons log rest ih =>
      rw [onLogs_cons]
      exact (onLog_frame p log).trans (ih _)

end Pool

end OfferBook
