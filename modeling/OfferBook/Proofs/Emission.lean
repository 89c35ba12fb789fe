import OfferBook.Proofs.Bookkeeping
import OfferBook.Proofs.Seeding

/-!
# Emitted logs are read back

An emitter writes the logs of a market, and a router reads them. The two were written apart: which
parameters of an event are topics and which are words of data, in what order they stand, and how a
signed tick becomes a word, is laid down for writing and for reading. `ofLog_emit` says that they
agree, for every event of the contract: what is left to say of a log is what the event means to a
market (`Route.ofEvent`).

A pool takes every log of one emitter into account, each once. What it must know before a log is
that nothing it noted lies at the log's position or behind it (`Expects`); after the log it knows
so of the next index in the block. That is the invariant of the run.

## Main results

* `ofLog_emit`: reading an emitted log is reading the event it was written of.
* `expects_onLog`: a pool that expects a log takes it into account and expects the next index.
* `onLogs_emitAll`: a pool applies the emitted events, in order, each at its index.
* `emitted_logs_read_back`: emitting and reading, for every market, event and position.
-/

namespace OfferBook

namespace Pool

variable {dex : String} {d : Deployment} {m : Market} {c : PoolConfig} {p : Pool} {log : Log}
  {block index : Nat}

/-- The notes of every pool that can come about are consistent. -/
theorem Reachable.bookkeeping (h : Reachable dex d m c p) : p.Bookkeeping := by
  induction h with
  | new => exact bookkeeping_new _ _ _ _
  | seed _ r block ih => exact bookkeeping_act ih (.seed r block)
  | feed _ log ih => exact bookkeeping_act ih (.feed log)
  | markFailed _ ih => exact ⟨ih.wf, ih.unseeded, ih.seeded, ih.lastLog, ih.nesting⟩
  | countAttempt _ ih => exact ⟨ih.wf, ih.unseeded, ih.seeded, ih.lastLog, ih.nesting⟩

/-- Nothing that a seeded pool noted stands at this position or behind it. -/
structure Expects (p : Pool) (block index : Nat) : Prop where
  wf : p.history.Wf
  seededAt : ∀ seed, p.seededAt = some seed → seed < block
  latest : ∃ latest, p.latest? = some latest ∧ latest.block ≤ block
  lastLog : ∀ last, p.lastLog = some last → positionLe (block, index) last = false

/-- A pool whose latest snapshot lies before a block expects every index of the block. -/
theorem Bookkeeping.expects (h : p.Bookkeeping) {latest : Book} (hl : p.latest? = some latest)
    (hlt : latest.block < block) (index : Nat) : p.Expects block index where
  wf := h.wf
  seededAt := by
    intro seed hs
    obtain ⟨seed', hs', hle⟩ := h.seededAt_of_latest? hl
    obtain rfl : seed = seed' := Option.some.inj (hs.symm.trans hs')
    omega
  latest := ⟨latest, hl, Nat.le_of_lt hlt⟩
  lastLog := by
    intro last hlast
    obtain ⟨seed, latest', -, hl', -, hle⟩ := h.lastLog last hlast
    obtain rfl : latest = latest' := Option.some.inj (hl.symm.trans hl')
    by_contra hge
    have hpos := positionLe_iff.mp (by simpa using hge)
    omega

/-- An expected log is taken into account, and behind it the next index of the block is
expected. -/
theorem expects_onLog (h : p.Expects block index) (hstanding : log.removed = false)
    (hpos : log.position? = some (block, index)) :
    (p.onLog log).value.applied = (log.event? p.market.hash).map (locate log block) ∧
      (p.onLog log).value.pool.Expects block (index + 1) := by
  obtain ⟨latest, hl, hle⟩ := h.latest
  have haccepts : p.Accepts log latest block := by
    refine ⟨Log.block_of_position? hpos, hstanding, hl, reflects_eq_false_iff.mpr
      ⟨hle, h.seededAt, fun here last hhere hlast => ?_⟩⟩
    obtain rfl : (block, index) = here := Option.some.inj (hpos.symm.trans hhere)
    exact h.lastLog last hlast
  have hfed := onLog_of_accepts h.wf haccepts
  refine ⟨by rw [hfed], ?_⟩
  refine
    { wf := wf_onLog h.wf log
      seededAt := by rw [(onLog_frame p log).seededAt]; exact h.seededAt
      latest := ?_
      lastLog := ?_ }
  · rw [hfed, latest?, history_noteLast, History.latest?_insert]
    exact ⟨_, rfl, Nat.le_refl block⟩
  · intro last hlast
    rw [hfed, lastLog_noteLast, hpos] at hlast
    obtain rfl : (block, index) = last := Option.some.inj hlast
    simp [positionLe]

/-- A log without an event for the market of the pool leaves its book and its open orders as they
are. -/
theorem onLog_of_no_event (hw : p.history.Wf) (h : log.event? p.market.hash = none) :
    (p.onLog log).value.applied = none ∧ (p.onLog log).value.pool.nesting = p.nesting ∧
      ((p.onLog log).value.pool.latest?.map fun b => (b.nextOffer, b.entries)) =
        p.latest?.map fun b => (b.nextOffer, b.entries) := by
  rcases p.refuses_or_accepts log with hrefuses | ⟨latest, block, haccepts⟩
  · rw [onLog_of_refuses hrefuses]
    exact ⟨rfl, rfl, rfl⟩
  · have houtcome : p.outcome log latest = ⟨latest, p.nesting⟩ := by
      rw [outcome, h]
      rfl
    have hlatest : p.latest? = some latest := haccepts.latest_eq
    rw [onLog_of_accepts hw haccepts, houtcome, h, hlatest]
    refine ⟨rfl, nesting_noteLast _ _, ?_⟩
    rw [latest?, history_noteLast, History.latest?_insert]
    rfl

end Pool

namespace Emitter

variable {e : Emitter}

/-! ## The events an emitter was given -/

/-- The events at their places: all in the block of the emitter and of one transaction, with the
indices from the next one on. -/
def located (e : Emitter) (events : List BookEvent) : List (Located BookEvent) :=
  events.mapIdx fun k event => ⟨e.block, e.txHash, e.txIndex, e.nextIndex + k, event⟩

/-- An emitter lays the parameters of a write out whatever they are: a write within the range of
ticks and with the usual gas amounts is a book event like any other. -/
theorem emitWrite_eq_emitBook (e : Emitter) (id : Word) (maker : Address) (tick : Tick)
    (gives : Word) : e.emitWrite id maker tick.word gives =
      e.emitBook (.offerWrite id maker tick gives usualGasreq usualGasprice) := rfl

/-- Every log of a sequence of events is routed to its event. -/
theorem ofLog_emitAll (e : Emitter) (events : List BookEvent) :
    (e.emitAll events).map (Route.ofLog e.market.hash) = events.map Route.apply := by
  induction events generalizing e with
  | nil => rfl
  | cons event rest ih =>
      have hrest := ih (e.emitBook event).2
      rw [emitAll, List.map_cons, List.map_cons, ofLog_emitBook]
      exact congrArg _ hrest

/-- A pool of the market that expects the next index of the emitter applies its events. -/
theorem onLogs_emitAll {p : Pool} (hmarket : p.market = e.market)
    (hexpects : p.Expects e.block e.nextIndex) (events : List BookEvent)
    (hroom : e.nextIndex + events.length < 0x10000000000000000) :
    (p.onLogs (e.emitAll events)).value.2 = e.located events := by
  induction events generalizing e p with
  | nil => rfl
  | cons event rest ih =>
      have hindex : next64 e.nextIndex = e.nextIndex + 1 := next64_of_lt (by
        rw [List.length_cons] at hroom
        omega)
      have hstanding : (e.emitBook event).1.removed = false := rfl
      obtain ⟨happlied, hnext⟩ := Pool.expects_onLog hexpects hstanding rfl
      rw [hmarket, event?_emitBook, Option.map_some] at happlied
      have hrest := ih (e := (e.emitBook event).2) (p := (p.onLog (e.emitBook event).1).value.pool)
        ((Pool.onLog_frame p _).market.trans hmarket) (by simpa [emitBook, emit, emitRaw, hindex])
        (by
          simp only [emitBook, emit, emitRaw, hindex]
          rw [List.length_cons] at hroom
          omega)
      rw [emitAll, Pool.onLogs_cons, happlied]
      refine (congrArg _ hrest).trans ?_
      simp only [located, List.mapIdx_cons, emitBook, emit, emitRaw, hindex]
      simp only [Nat.add_zero, Nat.add_assoc, Nat.add_comm 1]
      rfl

/-! ## Writes with any parameters -/

/-- A write whose tick is in range is routed to a write with the gas amounts that 64 bits hold. -/
theorem ofLog_write (e : Emitter) (id : Word) (maker : Address) {word : Word} {tick : Tick}
    (htick : word.toInt = tick.val) (gives gasprice gasreq : Word) :
    Route.ofLog e.market.hash
        (e.emit (.offerWrite e.market.hash maker word gives gasprice gasreq id)).1 =
      .apply (.offerWrite id maker tick gives gasreq.clamp64 gasprice.clamp64) := by
  rw [ofLog_emit, Route.ofEvent, BookEvent.ofContract, htick, Tick.ofInt?_val]
  exact if_pos rfl

/-- A write whose tick is out of range cannot be read, for whatever market. -/
theorem ofLog_write_of_tick_outside (e : Emitter) (id : Word) (maker : Address) {word : Word}
    (htick : word.toInt < -0x80000000 ∨ 0x80000000 ≤ word.toInt) (gives gasprice gasreq : Word)
    (market : Word) :
    Route.ofLog market (e.emit (.offerWrite e.market.hash maker word gives gasprice gasreq id)).1 =
      .malformed (.tick word.toInt) := by
  rw [ofLog_emit, Route.ofEvent, BookEvent.ofContract, Tick.ofInt?_eq_none_iff.mpr htick]

/-- **Emitted logs are read back.** Whatever the market of an emitter and wherever it stands:

* the log of every book event is routed to that event for the market;
* a pool of the market whose latest snapshot lies before the block of the emitter, whatever
  happened to the pool, applies exactly the emitted events, in order, in that block and at the
  indices from the first one on, as long as these are numbers of 64 bits;
* a write may be laid out with any words. With a tick in range it is routed to a write with its
  own gas request and its own gas price, either of them the greatest number of 64 bits if it is
  more than that. With a tick out of range no market can read it, and it leaves the book and the
  open orders of every pool as they are. -/
theorem emitted_logs_read_back (e : Emitter) :
    (∀ events, (e.emitAll events).map (Route.ofLog e.market.hash) = events.map Route.apply) ∧
      (∀ dex d c p latest events, Pool.Reachable dex d e.market c p → p.latest? = some latest →
        latest.block < e.block → e.nextIndex + events.length < 0x10000000000000000 →
        (p.onLogs (e.emitAll events)).value.2 = e.located events) ∧
      ∀ (id : Word) (maker : Address) (word gives gasprice gasreq : Word),
        let log := (e.emit (.offerWrite e.market.hash maker word gives gasprice gasreq id)).1
        (∀ tick : Tick, word.toInt = tick.val → ∃ request price : UInt64,
          request.toNat = min gasreq.toNat 0xffffffffffffffff ∧
            price.toNat = min gasprice.toNat 0xffffffffffffffff ∧
            Route.ofLog e.market.hash log =
              .apply (.offerWrite id maker tick gives request price)) ∧
          (word.toInt < -0x80000000 ∨ 0x80000000 ≤ word.toInt →
            (∀ market, Route.ofLog market log = .malformed (.tick word.toInt)) ∧
              ∀ dex d m c p, Pool.Reachable dex d m c p →
                (p.onLog log).value.applied = none ∧
                  (p.onLog log).value.pool.nesting = p.nesting ∧
                  ((p.onLog log).value.pool.latest?.map fun b => (b.nextOffer, b.entries)) =
                    p.latest?.map fun b => (b.nextOffer, b.entries)) := by
  refine ⟨e.ofLog_emitAll, ?_, fun id maker word gives gasprice gasreq => ⟨?_, ?_⟩⟩
  · intro dex d c p latest events hreachable hlatest hbefore hroom
    have hmarket : p.market = e.market := congrArg Fetcher.market hreachable.setUpAlike.fetcher
    exact onLogs_emitAll hmarket (hreachable.bookkeeping.expects hlatest hbefore _) events hroom
  · intro tick htick
    exact ⟨_, _, Word.toNat_clamp64 gasreq, Word.toNat_clamp64 gasprice,
      e.ofLog_write id maker htick gives gasprice gasreq⟩
  · intro htick
    have hroute := e.ofLog_write_of_tick_outside id maker htick gives gasprice gasreq
    refine ⟨hroute, fun dex d m c p hreachable => Pool.onLog_of_no_event hreachable.wf ?_⟩
    rw [Log.event?, hroute]
    rfl

/-- Four events are emitted from index seven on into the block behind the seeding of a pool. A
write asks for more gas than 64 bits hold, and one stands at a tick just out of range. -/
theorem emitted_logs_read_back_order :
    let market : Market := ⟨0xaa, 0xbb, 1⟩
    let served : InMemoryReader :=
      ⟨10, [⟨market, 0, [.usual 9 ⟨-1, by decide, by decide⟩ 5]⟩], false, false⟩
    let p := ((Pool.new "mangrove" .arbitrum market .default).seed served.reader 10).value.1
    let e : Emitter := ⟨0xdd, market, 11, 3, 7⟩
    let tick : Tick := ⟨-0x80000000, by decide, by decide⟩
    let write : BookEvent := .offerWrite (BitVec.allOnes 256) 0xee tick 0 5 6
    let log := fun (word gasprice gasreq : Word) =>
      (e.emit (.offerWrite market.hash 0xee word 0 gasprice gasreq 1)).1
    (p.onLogs (e.emitAll [.orderStart, write, .offerFail 9, .orderComplete])).value.2 =
        [⟨11, 11003, 3, 7, .orderStart⟩, ⟨11, 11003, 3, 8, write⟩, ⟨11, 11003, 3, 9, .offerFail 9⟩,
          ⟨11, 11003, 3, 10, .orderComplete⟩] ∧
      (∃ request price : UInt64, request.toNat = 0xffffffffffffffff ∧ price.toNat = 4 ∧
        Route.ofLog market.hash (log tick.word 4 (BitVec.allOnes 256)) =
          .apply (.offerWrite 1 0xee tick 0 request price)) ∧
      (p.onLog (log 0x80000000 4 5)).value.pool.nesting = p.nesting := by
  intro market served p e tick write log
  have hreachable : Pool.Reachable "mangrove" .arbitrum market .default p := .seed .new _ 10
  have hlatest : ∃ latest, p.latest? = some latest ∧ latest.block = 10 := by
    refine ⟨⟨10, 0, [⟨9, ⟨⟨-1, by decide, by decide⟩, 5, none, none⟩, ⟨0xbb, 150000, 300, 3⟩⟩]⟩,
      ?_, rfl⟩
    decide +kernel
  obtain ⟨latest, hlatest, hblock⟩ := hlatest
  -- From here on the pool is any that meets these facts, so that nothing evaluates it.
  clear_value p
  obtain ⟨-, hevents, hwrites⟩ := emitted_logs_read_back e
  obtain ⟨request, price, hrequest, hprice, hroute⟩ :=
    (hwrites 1 0xee tick.word 0 4 (BitVec.allOnes 256)).1 tick tick.toInt_word
  refine ⟨?_, ⟨request, price, hrequest.trans (by decide), hprice.trans (by decide), hroute⟩, ?_⟩
  · rw [hevents _ _ _ p latest _ hreachable hlatest (by rw [hblock]; decide) (by decide)]
    decide
  · exact ((hwrites 1 0xee 0x80000000 0 4 5).2 (.inr (by decide))).2 _ _ _ _ p hreachable |>.2.1

end Emitter

end OfferBook
