import OfferBook.Proofs.Seeding

/-!
# What the flags of a pool say

A pool shows whether it is ready and whether it failed. Both flags speak of attempts to seed the
pool, and logs leave them alone. An attempt that succeeds and one that fails for the time being
each set both flags; an attempt that finds the market missing sets none, since it leaves the pool
as it is. So the flags tell of the last attempt that did not find the market missing
(`leavesMark`), and an earlier success keeps a pool ready after its market went missing, as an
earlier failure keeps it failed.

## Main results

* `flags_seed`, `flags_onLog`: what one attempt and one log do to the flags.
* `flags_run`: the flags after any run.
* `flags_tell_last_mark`: when the flags tell of the last attempt.
-/

namespace OfferBook.Pool

/-- Whether an attempt to seed a pool, by the fault it ended in, shows in the pool. -/
def leavesMark : Option Fault → Bool
  | none => true
  | some fault => !fault.isPermanent

/-- The attempts to seed a pool in a run of it, in order, each by the fault it ended in. -/
def attempted (p : Pool) : List Action → List (Option Fault)
  | [] => []
  | .seed r block :: rest =>
      (p.seed r block).value.2 :: (p.act (.seed r block)).attempted rest
  | .feed log :: rest => (p.act (.feed log)).attempted rest

variable {p : Pool}

/-- An attempt sets both flags by how it ended, or changes nothing. -/
theorem flags_seed (p : Pool) (r : Reader) (block : Nat) :
    let seeded := (p.seed r block).value
    if leavesMark seeded.2 then
      seeded.1.isReady = seeded.2.isNone ∧ seeded.1.failed = seeded.2.isSome
    else seeded.1 = p := by
  intro seeded
  cases hfetch : (p.fetcher.tryFetch r block).value with
  | ok b =>
      have hnone : seeded.2 = none := by simp [seeded, seed, hfetch]
      have hpool : seeded.1 = p.restart block b := seed_of_ok hfetch
      simp [hnone, hpool, leavesMark, restart, isReady]
  | error fault =>
      have hsome : seeded.2 = some fault := fault_seed.mpr hfetch
      have hpool : seeded.1 = if fault.isPermanent then p else p.markFailed := seed_of_error hfetch
      cases hpermanent : fault.isPermanent <;>
        simp [hsome, hpool, leavesMark, hpermanent, markFailed, isReady]

/-- A log leaves the flags alone. -/
theorem flags_onLog (p : Pool) (log : Log) :
    (p.onLog log).value.pool.isReady = p.isReady ∧
      (p.onLog log).value.pool.failed = p.failed := by
  have hframe := onLog_frame p log
  exact ⟨by rw [isReady, isReady, hframe.seededAt, hframe.failed], hframe.failed⟩

/-- The flags after a run are those before it, unless an attempt left its mark: then the last one
that did has set them. -/
theorem flags_run (p : Pool) (actions : List Action) :
    let last := ((p.attempted actions).filter leavesMark).getLast?
    (p.run actions).isReady = (last.map Option.isNone).getD p.isReady ∧
      (p.run actions).failed = (last.map Option.isSome).getD p.failed := by
  induction actions generalizing p with
  | nil => exact ⟨rfl, rfl⟩
  | cons a rest ih =>
      have hrest := ih (p.act a)
      rw [run_cons]
      cases a with
      | feed log =>
          obtain ⟨hready, hfailed⟩ := flags_onLog p log
          rw [act, hready, hfailed] at hrest
          exact hrest
      | seed r block =>
          have hseed := flags_seed p r block
          rw [attempted, List.filter_cons]
          cases hmark : leavesMark (p.seed r block).value.2 with
          | true =>
              simp only [hmark, if_true] at hseed ⊢
              obtain ⟨hready, hfailed⟩ := hseed
              rw [List.getLast?_cons]
              let later := (p.act (.seed r block)).attempted rest
              cases hlast : (later.filter leavesMark).getLast? with
              | none =>
                  rw [hlast] at hrest
                  exact ⟨hrest.1.trans hready, hrest.2.trans hfailed⟩
              | some last =>
                  rw [hlast] at hrest
                  exact hrest
          | false =>
              simp only [hmark, Bool.false_eq_true, if_false] at hseed ⊢
              rw [act, hseed] at hrest ⊢
              exact hrest

/-- A last attempt that left a mark is the last that did. -/
private theorem getLast?_marks {attempts : List (Option Fault)} {last : Option Fault}
    (hlast : attempts.getLast? = some last) (hmark : leavesMark last = true) :
    (attempts.filter leavesMark).getLast? = some last := by
  obtain ⟨earlier, rfl⟩ := List.getLast?_eq_some_iff.mp hlast
  simp [hmark]

/-- **The flags tell of the last attempt that left a mark.** After any run of a new pool it is
ready exactly if an attempt to seed it left a mark and the last one that did succeeded, and it has
failed exactly if that attempt ended in a fault, which then is one for the time being. So both
flags tell the truth about the last attempt of all unless that one found the market missing when
an earlier one had left its mark. -/
theorem flags_tell_last_mark (dex : String) (d : Deployment) (m : Market) (c : PoolConfig)
    (actions : List Action) :
    let p := (new dex d m c).run actions
    let attempts := (new dex d m c).attempted actions
    let marks := attempts.filter leavesMark
    (p.isReady = true ↔ marks.getLast? = some none) ∧
      (p.failed = true ↔ ∃ fault, marks.getLast? = some (some fault)) ∧
      (((p.isReady = true ↔ attempts.getLast? = some none) ∧
          (p.failed = true ↔
            ∃ fault, attempts.getLast? = some (some fault) ∧ fault.isPermanent = false)) ↔
        ∀ fault, attempts.getLast? = some (some fault) → fault.isPermanent = true →
          marks = []) := by
  intro p attempts marks
  obtain ⟨hisReady, hisFailed⟩ := flags_run (new dex d m c) actions
  have hready : p.isReady = true ↔ marks.getLast? = some none := by
    rw [show p.isReady = _ from hisReady]
    rcases marks.getLast? with _ | _ | fault <;> simp [new, isReady]
  have hfailed : p.failed = true ↔ ∃ fault, marks.getLast? = some (some fault) := by
    rw [show p.failed = _ from hisFailed]
    rcases marks.getLast? with _ | _ | fault <;> simp [new]
  refine ⟨hready, hfailed, ?_⟩
  rw [hready, hfailed]
  rcases hlast : attempts.getLast? with _ | last
  · have hempty : marks = [] := by simp [marks, List.getLast?_eq_none_iff.mp hlast]
    simp [hempty]
  cases hmark : leavesMark last with
  | true =>
      rw [getLast?_marks hlast hmark]
      cases last with
      | none => simp
      | some fault =>
          have htransient : fault.isPermanent = false := by simpa [leavesMark] using hmark
          simp [htransient]
  | false =>
      cases last with
      | none => cases hmark
      | some fault =>
          have hpermanent : fault.isPermanent = true := by simpa [leavesMark] using hmark
          -- An earlier mark sets one of the flags, though the last attempt set none.
          by_cases hempty : marks = []
          · simp [hempty, hpermanent]
          · have hend : marks.getLast? = some (marks.getLast hempty) :=
              List.getLast?_eq_some_getLast hempty
            cases hearlier : marks.getLast hempty <;> simp [hend, hearlier, hempty, hpermanent]

/-- A market goes missing after its book was fetched, and after the reader was out of reach. The
pool stays ready the one time and failed the other, though the last attempt neither succeeded nor
failed for the time being. -/
theorem flags_survive_missing_market :
    let market : Market := ⟨0xaa, 0xbb, 1⟩
    let served : InMemoryReader :=
      ⟨10, [⟨market, 0, [.usual 9 ⟨-1, by decide, by decide⟩ 5]⟩], false, false⟩
    let gone : Action := .seed InMemoryReader.empty.reader 11
    let fetched : List Action := [.seed served.reader 10, gone]
    let unreached : List Action := [.seed { served with failing := true }.reader 10, gone]
    let p := new "mangrove" .arbitrum market .default
    ((p.attempted fetched).getLast? = some (some (.marketNotFound market)) ∧
        (p.run fetched).isReady = true) ∧
      (p.attempted unreached).getLast? = some (some (.marketNotFound market)) ∧
        (p.run unreached).failed = true := by
  decide +kernel

end OfferBook.Pool
