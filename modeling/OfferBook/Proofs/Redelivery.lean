import OfferBook.Emitter
import OfferBook.Proofs.Feeding

/-!
# Redelivered logs

A node that lost its place delivers logs again. `Redelivers` is what a pool may then see of a
list of logs: the logs themselves in their order, and between them any log that was delivered
before, any log of an abandoned block and any log without a block. None of the additions has an
effect, on the pool or on the events it reports.

The proof follows the stream. Whatever was delivered is refused from then on, because it had an
index, and refusal is for good; so the invariant is that the pool refuses every log delivered so
far. Nothing is asked of the pool, and of the logs only that they have an index: that their
positions increase and lie behind the seeding makes them effective, not their repetition
harmless.

## Main results

* `onLogs_of_redelivers`: a stream with redeliveries leaves the same pool and the same events.
-/

namespace OfferBook

/-- `Redelivers before logs stream`: the stream brings the logs in their order, each perhaps
again at any later point, and in between logs that cannot count. The logs in `before` were
brought earlier. -/
inductive Redelivers : List Log → List Log → List Log → Prop where
  /-- Everything was brought. -/
  | done {before : List Log} : Redelivers before [] []
  /-- The next log, for the first time. -/
  | first {before logs stream : List Log} {log : Log} :
      Redelivers (log :: before) logs stream → Redelivers before (log :: logs) (log :: stream)
  /-- A log that was brought before. -/
  | again {before logs stream : List Log} {log : Log} :
      log ∈ before → Redelivers before logs stream → Redelivers before logs (log :: stream)
  /-- A log of an abandoned block. -/
  | abandoned {before logs stream : List Log} {log : Log} :
      log.removed = true → Redelivers before logs stream → Redelivers before logs (log :: stream)
  /-- A log without a block. -/
  | unplaced {before logs stream : List Log} {log : Log} :
      log.block = none → Redelivers before logs stream → Redelivers before logs (log :: stream)

namespace Pool

variable {p : Pool} {log : Log}

theorem refuses_of_removed (h : log.removed = true) : p.Refuses log := by
  intro latest block hacc
  rw [hacc.standing] at h
  cases h

theorem refuses_of_no_block (h : log.block = none) : p.Refuses log := by
  intro latest block hacc
  rw [hacc.placed] at h
  cases h

/-- The invariant carried through the stream: all that was brought before is refused. -/
theorem onLogs_of_redelivers_refused {before logs stream : List Log}
    (h : Redelivers before logs stream) (hindex : ∀ log ∈ logs, log.index.isSome)
    (hbefore : ∀ log ∈ before, p.Refuses log) :
    (p.onLogs stream).value = (p.onLogs logs).value := by
  induction h generalizing p with
  | done => rfl
  | @first before logs stream log _ ih =>
      have hrest : ∀ l ∈ log :: before, (p.onLog log).value.pool.Refuses l := by
        intro l hl
        rcases List.mem_cons.mp hl with rfl | hl
        · exact refuses_self (hindex l List.mem_cons_self)
        · exact refuses_onLog (hbefore l hl) log
      rw [onLogs_cons, onLogs_cons, ih (fun l hl => hindex l (List.mem_cons_of_mem _ hl)) hrest]
  | again hmem _ ih =>
      rw [onLogs_cons_of_refuses (hbefore _ hmem)]
      exact ih hindex hbefore
  | abandoned hremoved _ ih =>
      rw [onLogs_cons_of_refuses (refuses_of_removed hremoved)]
      exact ih hindex hbefore
  | unplaced hblock _ ih =>
      rw [onLogs_cons_of_refuses (refuses_of_no_block hblock)]
      exact ih hindex hbefore

/-- **Delivery at least once has the effect of delivery exactly once.** Whatever the pool, a
stream that brings indexed logs in their order, with any repetitions, withdrawn logs and logs
without a block in between, leaves the pool that the logs alone leave, and the events applied on
the way are the same. -/
theorem onLogs_of_redelivers (p : Pool) {logs stream : List Log} (h : Redelivers [] logs stream)
    (hindex : ∀ log ∈ logs, log.index.isSome) :
    (p.onLogs stream).value = (p.onLogs logs).value :=
  onLogs_of_redelivers_refused h hindex fun _ hl => absurd hl List.not_mem_nil

/-- An order whose start is delivered three times, twice before and once after it completed. -/
theorem onLogs_redelivered_order :
    let pool := (Pool.new "mangrove" .arbitrum default .default).restart 5 (.empty 5)
    let start := ((Emitter.new default 6).emitBook .orderStart).1
    let complete := ((Emitter.new default 7).emitBook .orderComplete).1
    let stream := [start, start.asRemoved, start, complete, start, { complete with block := none },
      complete]
    Redelivers [] [start, complete] stream ∧
      (∀ log ∈ [start, complete], log.index.isSome) ∧
      (pool.onLogs stream).value = (pool.onLogs [start, complete]).value := by
  intro pool start complete stream
  have hstream : Redelivers [] [start, complete] stream :=
    .first (.abandoned rfl (.again (by simp) (.first (.again (by simp)
      (.unplaced rfl (.again (by simp) .done))))))
  have hindex : ∀ log ∈ [start, complete], log.index.isSome := by
    intro log hlog
    rcases List.mem_cons.mp hlog with rfl | hlog
    · rfl
    · obtain rfl : log = complete := by simpa using hlog
      rfl
  exact ⟨hstream, hindex, onLogs_of_redelivers pool hstream hindex⟩

end Pool

end OfferBook
