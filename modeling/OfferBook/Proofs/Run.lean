import OfferBook.Proofs.Feeding
import OfferBook.Proofs.Outcomes

/-!
# Runs of a pool

A pool is only ever changed by an attempt to seed it, from whatever reader and at whatever block,
and by feeding it a log. A run is a list of such actions. Nothing restricts it: attempts may fail
in every way a reader can fail, logs may come in any order and say anything.

`snapshots_act` says where the snapshots after an action come from: they were there before, or
one was fetched, or one is the outcome of an event for the snapshot that was the latest. What
fetching yields and events keep therefore holds of every snapshot that any run retains
(`snapshots_run_induction`), without another look at how a pool works.

## Main results

* `tryFetch_eq_ok_iff`: when an attempt to fetch yields a book, and which.
* `seed_cases`: the two things that an attempt to seed a pool can do to it.
* `wf_run`: every run leaves a well-formed history.
* `snapshots_run_induction`: how to prove something of every retained snapshot.
* `snapshots_run`: the snapshots of any run are aligned, in order and, as long as no accepted
  offer list repeats an identifier, consistent.
-/

namespace OfferBook

namespace Fetcher

/-- The reader's answer to the batch is accepted: its first result succeeded, and its data is
this offer list, which makes this book. -/
def Accepts (f : Fetcher) (r : Reader) (block : Nat) (l : Contract.OfferList) (b : Book) : Prop :=
  ∃ result rest, r.batch f.request block = .ok (result :: rest) ∧ result.success = true ∧
    Contract.OfferList.decode? result.data = some l ∧ Book.ofOfferList block l = .ok b

theorem tryFetch_eq_ok_iff {f : Fetcher} {r : Reader} {block : Nat} {b : Book} :
    (f.tryFetch r block).value = .ok b ↔ ∃ l, f.Accepts r block l b := by
  constructor
  · intro h
    have hyields := tryFetch_eq_iff_yields.mp h
    generalize hanswer : r.batch f.request block = answer at hyields
    cases hyields with
    | book hsuccess hl halign hticks hb => exact ⟨_, _, _, hanswer, hsuccess, hl, hb⟩
  · rintro ⟨l, result, rest, hanswer, hsuccess, hl, hb⟩
    rw [tryFetch, hanswer, interpret, interpretResult_of_read hsuccess hl, hb]
    rfl

end Fetcher

namespace Pool

/-- What can be done to a pool. -/
inductive Action where
  /-- An attempt to seed the pool at a block. -/
  | seed (r : Reader) (block : Nat)
  /-- A log is fed. -/
  | feed (log : Log)

/-- The pool after an action. -/
def act (p : Pool) : Action → Pool
  | .seed r block => (p.seed r block).value.1
  | .feed log => (p.onLog log).value.pool

/-- The pool after a list of actions. -/
def run (p : Pool) (actions : List Action) : Pool := actions.foldl act p

theorem run_cons (p : Pool) (a : Action) (actions : List Action) :
    p.run (a :: actions) = (p.act a).run actions := rfl

theorem run_append (p : Pool) (actions more : List Action) :
    p.run (actions ++ more) = (p.run actions).run more :=
  List.foldl_append

/-! ## Seeding -/

/-- A successful attempt starts the pool over from the fetched book. -/
theorem seed_of_ok {p : Pool} {r : Reader} {block : Nat} {b : Book}
    (h : (p.fetcher.tryFetch r block).value = .ok b) :
    (p.seed r block).value.1 = p.restart block b := by
  simp [seed, h, seedWith]

theorem capacity_restart (p : Pool) (block : Nat) (b : Book) :
    (p.restart block b).history.capacity = p.history.capacity := rfl

/-- After a failed attempt at most the failure is remembered. -/
theorem seed_of_error {p : Pool} {r : Reader} {block : Nat} {fault : Fault}
    (h : (p.fetcher.tryFetch r block).value = .error fault) :
    (p.seed r block).value.1 = if fault.isPermanent then p else p.markFailed := by
  simp [seed, h, seedWith]

/-- An attempt to seed a pool starts it over without a fault, or it ends in one and changes nothing
but perhaps the note of a failure. -/
theorem seed_cases (p : Pool) (r : Reader) (block : Nat) :
    (∃ b, (p.fetcher.tryFetch r block).value = .ok b ∧
        (p.seed r block).value = (p.restart block b, none)) ∨
      ∃ fault failed, (p.fetcher.tryFetch r block).value = .error fault ∧
        (p.seed r block).value = ({ p with failed }, some fault) := by
  cases h : (p.fetcher.tryFetch r block).value with
  | ok b => exact .inl ⟨b, rfl, by simp [seed, h, seedWith]⟩
  | error fault =>
      right
      by_cases hpermanent : fault.isPermanent = true
      · exact ⟨fault, p.failed, rfl, by simp [seed, h, seedWith, hpermanent]⟩
      · exact ⟨fault, true, rfl, by simp [seed, h, seedWith, hpermanent, markFailed]⟩

/-- What an attempt to seed does to the history. -/
theorem history_seed (p : Pool) (r : Reader) (block : Nat) :
    (∃ b, (p.fetcher.tryFetch r block).value = .ok b ∧
        (p.seed r block).value.1.history = p.history.clear.insert b) ∨
      (p.seed r block).value.1.history = p.history := by
  rcases p.seed_cases r block with ⟨b, hfetch, hseed⟩ | ⟨fault, failed, -, hseed⟩
  · exact .inl ⟨b, hfetch, by rw [hseed]; rfl⟩
  · exact .inr (by rw [hseed])

/-! ## What every run keeps -/

/-- No action changes the fetcher or the capacity. -/
theorem fetcher_act (p : Pool) (a : Action) :
    (p.act a).fetcher = p.fetcher ∧ (p.act a).history.capacity = p.history.capacity := by
  cases a with
  | feed log => exact ⟨(onLog_frame p log).fetcher, (onLog_frame p log).capacity⟩
  | seed r block =>
      rcases p.seed_cases r block with ⟨b, -, hseed⟩ | ⟨fault, failed, -, hseed⟩
      · rw [act, hseed]
        exact ⟨rfl, capacity_restart p block b⟩
      · rw [act, hseed]
        exact ⟨rfl, rfl⟩

theorem fetcher_run (p : Pool) (actions : List Action) :
    (p.run actions).fetcher = p.fetcher ∧
      (p.run actions).history.capacity = p.history.capacity := by
  induction actions generalizing p with
  | nil => exact ⟨rfl, rfl⟩
  | cons a rest ih =>
      obtain ⟨hfetcher, hcapacity⟩ := fetcher_act p a
      obtain ⟨hfetchers, hcapacities⟩ := ih (p.act a)
      rw [run_cons]
      exact ⟨hfetchers.trans hfetcher, hcapacities.trans hcapacity⟩

theorem wf_onLog {p : Pool} (hw : p.history.Wf) (log : Log) :
    (p.onLog log).value.pool.history.Wf := by
  rcases p.refuses_or_accepts log with h | ⟨latest, block, h⟩
  · rw [onLog_of_refuses h]
    exact hw
  · rw [onLog_of_accepts hw h, history_noteLast]
    exact History.wf_insert hw _

theorem wf_act {p : Pool} (hw : p.history.Wf) (a : Action) : (p.act a).history.Wf := by
  cases a with
  | feed log => exact wf_onLog hw log
  | seed r block =>
      rcases history_seed p r block with ⟨b, -, h⟩ | h
      · rw [act, h]
        exact History.wf_insert (History.wf_clear _) b
      · rw [act, h]
        exact hw

/-- Every run leaves a well-formed history. -/
theorem wf_run {p : Pool} (hw : p.history.Wf) (actions : List Action) :
    (p.run actions).history.Wf := by
  induction actions generalizing p with
  | nil => exact hw
  | cons a rest ih =>
      rw [run_cons]
      exact ih (wf_act hw a)

/-! ## Where snapshots come from -/

/-- Every snapshot after an action was there before, or was fetched, or is the outcome of an
event for one that was there. -/
theorem snapshots_act {p : Pool} (hw : p.history.Wf) {a : Action} {t : Book}
    (ht : t ∈ (p.act a).history.snapshots) :
    t ∈ p.history.snapshots ∨
      (∃ r block, a = .seed r block ∧ (p.fetcher.tryFetch r block).value = .ok t) ∨
      ∃ s ∈ p.history.snapshots, ∃ e : Option BookEvent, ∃ block,
        t = (BookState.follow ⟨s, p.nesting⟩ e).book.atBlock block := by
  cases a with
  | seed r block =>
      rcases history_seed p r block with ⟨b, hb, h⟩ | h
      · rw [act, h, History.snapshots_insert_clear, List.mem_singleton] at ht
        exact .inr (.inl ⟨r, block, rfl, ht ▸ hb⟩)
      · rw [act, h] at ht
        exact .inl ht
  | feed log =>
      rcases p.refuses_or_accepts log with h | ⟨latest, block, h⟩
      · rw [act, onLog_of_refuses h] at ht
        exact .inl ht
      · rw [act, onLog_of_accepts hw h, history_noteLast] at ht
        rcases History.mem_snapshots_insert ht with rfl | ht
        · have hmem : latest ∈ p.history.snapshots := List.mem_of_head? h.latest_eq
          exact .inr (.inr ⟨latest, hmem, _, block, rfl⟩)
        · exact .inl ht

/-- What holds of every fetched book, is kept by events and does not look at the block holds of
every snapshot that a run retains. -/
theorem snapshots_run_induction {P : Book → Prop} {p : Pool} (hw : p.history.Wf)
    (actions : List Action) (init : ∀ b ∈ p.history.snapshots, P b)
    (seed : ∀ r block b, .seed r block ∈ actions → (p.fetcher.tryFetch r block).value = .ok b → P b)
    (event : ∀ (s : BookState) (e : BookEvent), P s.book → P (s.apply e).value.book)
    (stamp : ∀ b block, P b → P (b.atBlock block)) :
    ∀ b ∈ (p.run actions).history.snapshots, P b := by
  induction actions generalizing p with
  | nil => exact init
  | cons a rest ih =>
      have hfetcher := (fetcher_act p a).1
      refine ih (wf_act hw a) (fun t ht => ?_) fun r block b hmem hb =>
        seed r block b (List.mem_cons_of_mem _ hmem) (hfetcher ▸ hb)
      rcases snapshots_act hw ht with ht | ⟨r, block, rfl, hb⟩ | ⟨s, hs, e, block, rfl⟩
      · exact init t ht
      · exact seed r block t List.mem_cons_self hb
      · refine stamp _ block ?_
        cases e with
        | none => exact init s hs
        | some e => exact event ⟨s, p.nesting⟩ e (init s hs)

/-! ## The books a pool retains -/

private theorem forall_snapshots_new (P : Book → Prop) (dex : String) (d : Deployment) (m : Market)
    (c : PoolConfig) : ∀ b ∈ (new dex d m c).history.snapshots, P b :=
  fun _ hb => absurd hb List.not_mem_nil

/-- Every snapshot of a run is in order, whatever was listed and logged. -/
theorem ordered_run (dex : String) (d : Deployment) (m : Market) (c : PoolConfig)
    (actions : List Action) :
    ∀ b ∈ ((new dex d m c).run actions).history.snapshots, b.Ordered := by
  refine snapshots_run_induction (History.wf_new _) actions (forall_snapshots_new _ dex d m c)
    (fun r block t _ ht => ?_) (fun s e hs => BookState.ordered_apply hs e) (fun b block h => h)
  obtain ⟨l, result, rest, -, -, -, hl⟩ := Fetcher.tryFetch_eq_ok_iff.mp ht
  exact Book.ordered_ofOfferList hl

/-- **Every retained snapshot is a proper book.** After any run of a new pool, every snapshot in
the history has its three columns aligned and its offers in order of their ticks. It is
consistent, no identifier occurring twice, as long as no offer list that a reader's answer was
accepted with repeats an identifier. -/
theorem snapshots_run (dex : String) (d : Deployment) (m : Market) (c : PoolConfig)
    (actions : List Action) :
    ∀ b ∈ ((new dex d m c).run actions).history.snapshots,
      (b.ids.length = b.offers.length ∧ b.offers.length = b.details.length) ∧
        b.offers.Pairwise (fun x y => x.tick ≤ y.tick) ∧
        ((∀ r block l fetched, .seed r block ∈ actions →
            (new dex d m c).fetcher.Accepts r block l fetched → l.ids.Nodup) →
          b.Consistent) := by
  intro b hb
  have hordered := ordered_run dex d m c actions b hb
  refine ⟨by simp [Book.ids, Book.offers, Book.details], List.pairwise_map.mpr hordered,
    fun hlists => ?_⟩
  refine snapshots_run_induction (History.wf_new _) actions (forall_snapshots_new _ dex d m c)
    (fun r block t hmem ht => ?_) (fun s e hs => BookState.consistent_apply hs e)
    (fun b block h => h) b hb
  obtain ⟨l, haccepts⟩ := Fetcher.tryFetch_eq_ok_iff.mp ht
  have hnodup := hlists r block l t hmem haccepts
  obtain ⟨result, rest, -, -, -, hl⟩ := haccepts
  exact ⟨Book.ordered_ofOfferList hl, (Book.ids_ofOfferList_perm hl).nodup_iff.mpr hnodup⟩

/-- A page of two offers is fetched, the block is advanced by a log without topics, and a second
attempt to seed the pool fails. -/
theorem snapshots_run_two_offers :
    let market : Market := ⟨0xaa, 0xbb, 1⟩
    let offers : List HeldOffer :=
      [.usual 9 ⟨-1, by decide, by decide⟩ 5, .usual 4 ⟨3, by decide, by decide⟩ 7]
    let served : InMemoryReader := ⟨10, [⟨market, 0, offers⟩], false, false⟩
    let log : Log := ⟨0, [], [], some 11, none, none, none, false⟩
    let actions : List Action :=
      [.seed served.reader 10, .feed log, .seed { served with failing := true }.reader 12]
    let b : Book := ⟨11, 0,
      [⟨9, ⟨⟨-1, by decide, by decide⟩, 5, none, some 4⟩, ⟨0xbb, 150000, 300, 3⟩⟩,
        ⟨4, ⟨⟨3, by decide, by decide⟩, 7, some 9, none⟩, ⟨0xbb, 150000, 300, 3⟩⟩]⟩
    b ∈ ((new "mangrove" .arbitrum market .default).run actions).history.snapshots ∧
      b.offers.Pairwise (fun x y => x.tick ≤ y.tick) ∧ b.Consistent := by
  intro market offers served log actions b
  have hb : b ∈ ((new "mangrove" .arbitrum market .default).run actions).history.snapshots := by
    decide +kernel
  obtain ⟨-, hordered, hconsistent⟩ :=
    snapshots_run "mangrove" .arbitrum market .default actions b hb
  refine ⟨hb, hordered, hconsistent fun r block l fetched hmem haccepts => ?_⟩
  obtain ⟨result, rest, hbatch, -, hl, -⟩ := haccepts
  simp only [actions, List.mem_cons, Action.seed.injEq, reduceCtorEq, List.not_mem_nil, or_false,
    false_or] at hmem
  rcases hmem with ⟨rfl, rfl⟩ | ⟨rfl, rfl⟩
  · obtain ⟨rfl, -⟩ := List.cons.inj (Except.ok.inj hbatch)
    have hids : some l.ids = some [9, 4] := by
      rw [← Option.map_some, ← hl]
      decide +kernel
    rw [Option.some.inj hids]
    decide
  · cases hbatch

end Pool

end OfferBook
