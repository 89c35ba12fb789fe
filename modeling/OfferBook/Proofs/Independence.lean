import OfferBook.Proofs.Serving

/-!
# A registry is a set of independent pools

A run of a registry is a list of requests and logs. Nothing restricts it: a request finds whatever
is known of missing markets at its moment, which other registries may have added to, and whatever
the reader answers, and logs may come in any order and say anything.

For one market such a run can be told as the story of a single pool (`Action.onPool`). The pool is
created when the market is first asked for. A request for the market is an attempt to seed it for
every batch that was sent, and a log of the order book is fed to it. Nothing else reaches it.

`Follows` compares that pool with what the registry holds for the market, and every action keeps
it (`follows_act`). The two pools are told apart by the account of failed attempts only, which
decides when the registry tries again and nothing else.

## Main results

* `follows_run`: what a registry holds for a market is what became of the market's own pool.
* `AgreeOn.run`: requests for other markets make no difference.
* `independent_run`: the live pools of any run, and what is reported of a log.
-/

namespace OfferBook

/-- The attempt to seed a pool that a batch sent to a reader is. -/
def Request.seeding? (reader : Reader) : Request → Option Pool.Action
  | head => none
  | batch _ block => some (.seed reader block)

namespace Pool

variable {p q : Pool}

theorem sameContents_run (h : SameContents p q) (hw : p.history.Wf) (actions : List Action) :
    SameContents (p.run actions) (q.run actions) := by
  induction actions generalizing p q with
  | nil => exact h
  | cons a rest ih => exact ih (sameContents_act h hw a) (wf_act hw a)

end Pool

namespace Registry

variable {r : Registry} {m : Market} {missing : MissingMarkets} {reader : Reader}

/-! ## Runs -/

/-- What can be done to a registry. -/
inductive Action where
  /-- A market is asked for, while so much is known of missing markets. -/
  | request (missing : MissingMarkets) (reader : Reader) (m : Market) (block : Option Nat)
  /-- A log is fed. -/
  | feed (log : Log)

/-- The registry after an action. -/
def act (r : Registry) : Action → Registry
  | .request missing reader m block => (r.getPool missing reader m block).value.registry
  | .feed log => (r.onLog log).value.1

/-- The registry after a list of actions. -/
def run (r : Registry) (actions : List Action) : Registry := actions.foldl act r

theorem run_cons (r : Registry) (a : Action) (actions : List Action) :
    r.run (a :: actions) = (r.act a).run actions := rfl

/-- The market is asked for. -/
def Action.asksFor (m : Market) : Action → Bool
  | .request _ _ m' _ => m' = m
  | .feed _ => false

/-- The market is asked for, or a log is fed. -/
def Action.concerns (m : Market) : Action → Bool
  | .request _ _ m' _ => m' = m
  | .feed _ => true

/-- What an action on the registry is for the pool of a market: the attempts to seed it that a
request for the market leads to, and the logs of the order book once the market was asked for. -/
def Action.onPool (r : Registry) (m : Market) (asked : Bool) : Action → List Pool.Action
  | .request missing reader m' block =>
    if m' = m then
      (r.getPool missing reader m block).value.requests.filterMap (Request.seeding? reader)
    else []
  | .feed log => if asked ∧ log.address = r.deployment.orderBook then [.feed log] else []

/-- What a run of the registry is for the pool of a market. -/
def poolActions (m : Market) : Registry → Bool → List Action → List Pool.Action
  | _, _, [] => []
  | r, asked, a :: rest =>
    a.onPool r m asked ++ poolActions m (r.act a) (asked || a.asksFor m) rest

/-- The pool of a market on its own: created when the market was first asked for, and from then
on seeded where the registry tried to and fed the logs of the order book. -/
def standalone (r : Registry) (actions : List Action) (m : Market) : Pool :=
  (Pool.new r.dex r.deployment m r.config).run (poolActions m r false actions)

/-! ## What an answer does -/

private theorem seedings_heads {asked : List Request} (heads : ∀ x ∈ asked, x = .head) :
    asked.filterMap (Request.seeding? reader) = [] := by
  refine List.filterMap_eq_nil_iff.mpr fun x hx => ?_
  rw [heads x hx]
  rfl

/-- The pool that is served is what became of the pool by the batches that were sent. -/
theorem Serves.contents {p q : Pool} {answer : Served} (h : Serves r missing reader p answer)
    (hq : answer.pool = some q) :
    Pool.SameContents (p.run (answer.requests.filterMap (Request.seeding? reader))) q := by
  cases h with
  | kept same heads =>
      obtain rfl := Option.some.inj hq
      rw [seedings_heads heads]
      exact same
  | attempted same found heads =>
      obtain rfl := Option.some.inj hq
      rw [List.filterMap_append, seedings_heads heads]
      exact same
  | failed notFound heads => cases hq

/-- An action changes the slots of a registry and nothing else. -/
theorem setting_act (r : Registry) (a : Action) : ∃ slots, r.act a = { r with slots } := by
  cases a with
  | request missing reader m block =>
      have hanswers := answers_getPool r missing reader m block
      simp only [act]
      generalize (r.getPool missing reader m block).value = answer at hanswers ⊢
      cases hanswers with
      | declined known => exact ⟨r.slots, rfl⟩
      | served unknown holds serves => exact ⟨_, serves.registry⟩
  | feed log =>
      by_cases hlog : log.address = r.deployment.orderBook
      · exact ⟨_, congrArg Prod.fst (onLog_of_eq hlog)⟩
      · exact ⟨r.slots, congrArg Prod.fst (onLog_of_ne hlog)⟩

theorem setting_run (r : Registry) (actions : List Action) :
    ∃ slots, r.run actions = { r with slots } := by
  induction actions generalizing r with
  | nil => exact ⟨r.slots, rfl⟩
  | cons a rest ih =>
      obtain ⟨slots, hact⟩ := setting_act r a
      obtain ⟨slots', hrun⟩ := ih (r.act a)
      exact ⟨slots', by rw [run_cons, hrun, hact]⟩

/-- A request changes no slot but that of its market. -/
theorem slot?_getPool_of_ne (hf : r.Filed) {m other : Market} (hne : other ≠ m)
    (missing : MissingMarkets) (reader : Reader) (block : Option Nat) :
    (r.getPool missing reader m block).value.registry.slot? other = r.slot? other := by
  have hanswers := answers_getPool r missing reader m block
  generalize (r.getPool missing reader m block).value = answer at hanswers ⊢
  cases hanswers with
  | declined known => rfl
  | served unknown holds serves =>
      rw [serves.registry, holds.market hf, slot?_put, if_neg hne]

theorem filed_act (hf : r.Filed) (a : Action) : (r.act a).Filed := by
  cases a with
  | feed log => exact filed_onLog hf log
  | request missing reader m block =>
      have hanswers := answers_getPool r missing reader m block
      simp only [act]
      generalize (r.getPool missing reader m block).value = answer at hanswers ⊢
      cases hanswers with
      | declined known => exact hf
      | @served p _ unknown holds serves =>
          rw [serves.registry, holds.market hf]
          refine filed_put hf fun q hq => ?_
          have hsame := serves.contents hq
          refine ⟨?_, hsame.history ▸ Pool.wf_run (holds.wf hf) _⟩
          rw [← hsame.fetcher, (Pool.fetcher_run p _).1]
          exact holds.fetcher hf

theorem filed_run (hf : r.Filed) (actions : List Action) : (r.run actions).Filed := by
  induction actions generalizing r with
  | nil => exact hf
  | cons a rest ih => exact ih (filed_act hf a)

/-! ## What other markets are asked for makes no difference -/

/-- The registries are set up alike and hold the same for the market. -/
structure AgreeOn (m : Market) (r r' : Registry) : Prop where
  setting : ∃ slots, r' = { r with slots }
  slot : r'.slot? m = r.slot? m

private theorem pool_seedAt_slots (q : Pool) (block : Nat) (asked : List Request)
    (slots : List (Market × Option Pool)) :
    (seedAt { r with slots } missing reader q block asked).value.pool =
      (r.seedAt missing reader q block asked).value.pool := by
  cases h : (q.fetcher.tryFetch reader block).value with
  | ok b => rw [seedAt_of_ok h, seedAt_of_ok h]
  | error fault =>
      rw [seedAt_of_error h, seedAt_of_error h]
      split <;> rfl

/-- What a pool becomes when it is served does not depend on the other slots. -/
private theorem pool_serve_slots (p : Pool) (block : Option Nat)
    (slots : List (Market × Option Pool)) :
    (serve { r with slots } missing reader p block).value.pool =
      (r.serve missing reader p block).value.pool := by
  have hdue : dueForSeeding { r with slots } p = r.dueForSeeding p := rfl
  unfold serve
  rw [hdue]
  rcases r.dueForSeeding p with ⟨q, due⟩
  cases due with
  | false => rfl
  | true =>
      simp only [if_true]
      rcases resolveBlock reader block with ⟨fault | block, asked⟩
      · rfl
      · exact pool_seedAt_slots q block asked slots

private theorem slot?_serve {r' : Registry} (h : AgreeOn m r r') (p : Pool) (block : Option Nat) :
    (r'.serve missing reader p block).value.registry.slot? m =
      (r.serve missing reader p block).value.registry.slot? m := by
  obtain ⟨⟨slots, rfl⟩, hslot⟩ := h
  rw [(serves_serve p block).registry, (serves_serve p block).registry, slot?_put, slot?_put,
    pool_serve_slots, hslot]

theorem AgreeOn.getPool {r' : Registry} (h : AgreeOn m r r') (missing : MissingMarkets)
    (reader : Reader) (block : Option Nat) :
    (r'.getPool missing reader m block).value.registry.slot? m =
      (r.getPool missing reader m block).value.registry.slot? m := by
  obtain ⟨slots, rfl⟩ := h.setting
  unfold Registry.getPool
  simp only [h.slot]
  split
  · exact h.slot
  · split
    · exact slot?_serve h _ block
    · exact h.slot
    · exact slot?_serve h _ block

/-- An action that concerns the market does the same to both registries. -/
theorem AgreeOn.act {r' : Registry} (h : AgreeOn m r r') {a : Action} (ha : a.concerns m = true) :
    AgreeOn m (r.act a) (r'.act a) := by
  obtain ⟨slots, hr⟩ := setting_act r a
  obtain ⟨slots', hr'⟩ := setting_act r' a
  obtain ⟨_, hsetting⟩ := h.setting
  refine ⟨⟨slots', by rw [hr', hr, hsetting]⟩, ?_⟩
  cases a with
  | request missing reader m' block =>
      obtain rfl : m' = m := by simpa [Action.concerns] using ha
      exact h.getPool missing reader block
  | feed log =>
      have hbook : r'.deployment.orderBook = r.deployment.orderBook := by rw [hsetting]
      simp only [Registry.act]
      by_cases hlog : log.address = r.deployment.orderBook
      · rw [slot?_onLog hlog, slot?_onLog (hlog.trans hbook.symm), h.slot]
      · rw [onLog_of_ne hlog, onLog_of_ne (hbook ▸ hlog)]
        exact h.slot

/-- Any other action makes no difference. -/
theorem AgreeOn.skip {r' : Registry} (h : AgreeOn m r r') (hf : r.Filed) {a : Action}
    (ha : a.concerns m = false) : AgreeOn m (r.act a) r' := by
  obtain ⟨slots, hr⟩ := setting_act r a
  obtain ⟨slots', hsetting⟩ := h.setting
  refine ⟨⟨slots', by rw [hr, hsetting]⟩, h.slot.trans ?_⟩
  cases a with
  | request missing reader m' block =>
      have hne : m ≠ m' := by
        rintro rfl
        simp [Action.concerns] at ha
      exact (slot?_getPool_of_ne hf hne missing reader block).symm
  | feed log => cases ha

theorem AgreeOn.run {r' : Registry} (h : AgreeOn m r r') (hf : r.Filed) (actions : List Action) :
    AgreeOn m (r.run actions) (r'.run (actions.filter fun a => a.concerns m)) := by
  induction actions generalizing r r' with
  | nil => exact h
  | cons a rest ih =>
      cases ha : a.concerns m with
      | true =>
          rw [List.filter_cons_of_pos ha]
          exact ih (h.act ha) (filed_act hf a)
      | false =>
          rw [List.filter_cons_of_neg (by simp [ha])]
          exact ih (h.skip hf ha) (filed_act hf a)

/-! ## The pool of a market on its own -/

/-- A pool stands for what the registry holds for a market: whatever a request would be served
from has the same contents. -/
structure Follows (r : Registry) (m : Market) (asked : Bool) (p : Pool) : Prop where
  wf : p.history.Wf
  same : ∀ q, r.Holds m q → Pool.SameContents q p
  unasked : asked = false → r.slot? m = none

theorem AgreeOn.holds {r' : Registry} (h : AgreeOn m r r') {q : Pool} (hq : r'.Holds m q) :
    r.Holds m q := by
  obtain ⟨slots, rfl⟩ := h.setting
  rw [Holds, ← h.slot]
  exact hq

theorem follows_new {r : Registry} (h : r.slot? m = none) :
    Follows r m false (Pool.new r.dex r.deployment m r.config) where
  wf := History.wf_new _
  same := by
    rintro q (hq | ⟨-, rfl⟩)
    · rw [h] at hq
      cases hq
    · exact .refl _
  unasked := fun _ => h

private theorem follows_request {asked : Bool} {p : Pool} (hf : r.Filed)
    (h : Follows r m asked p) (missing : MissingMarkets) (reader : Reader) (block : Option Nat) :
    let answer := (r.getPool missing reader m block).value
    Follows answer.registry m true
      (p.run (answer.requests.filterMap (Request.seeding? reader))) := by
  have hanswers := answers_getPool r missing reader m block
  generalize (r.getPool missing reader m block).value = answer at hanswers ⊢
  refine ⟨Pool.wf_run h.wf _, fun q hq => ?_, nofun⟩
  cases hanswers with
  | declined known => exact h.same q hq
  | @served held _ unknown holds serves =>
      have hslot : answer.registry.slot? m = some answer.pool := by
        rw [serves.registry, holds.market hf, slot?_put, if_pos rfl]
      have hpool : answer.pool = some q := by
        rcases hq with hq | ⟨hq, -⟩
        · exact Option.some.inj (hslot.symm.trans hq)
        · rw [hslot] at hq
          cases hq
      have hrun := Pool.sameContents_run (h.same held holds) (holds.wf hf)
        (answer.requests.filterMap (Request.seeding? reader))
      exact (serves.contents hpool).symm.trans hrun

private theorem follows_feed {asked : Bool} {p : Pool} (hf : r.Filed) (h : Follows r m asked p)
    {log : Log} (hlog : log.address = r.deployment.orderBook) :
    Follows (r.onLog log).value.1 m asked (if asked then (p.onLog log).value.pool else p) := by
  have hslot := slot?_onLog hlog m
  refine ⟨?_, fun q hq => ?_, fun hasked => ?_⟩
  · split
    · exact Pool.wf_onLog h.wf log
    · exact h.wf
  · cases asked with
    | false =>
        rw [h.unasked rfl] at hslot
        rcases hq with hq | ⟨-, rfl⟩
        · rw [hslot] at hq
          cases hq
        · rw [onLog_of_eq hlog]
          exact h.same _ (.inr ⟨h.unasked rfl, rfl⟩)
    | true =>
        -- Whatever is held afterwards is what feeding made of what was held before.
        have hfed : ∃ held, r.Holds m held ∧ (held.onLog log).value.pool = q := by
          rcases hq with hq | ⟨hq, rfl⟩
          · rw [hslot, Option.map_eq_some_iff] at hq
            obtain ⟨slot, hheld, hq⟩ := hq
            obtain ⟨held, rfl, hq⟩ := Option.map_eq_some_iff.mp hq
            exact ⟨held, .inl hheld, Option.some.inj hq⟩
          · rw [hslot, Option.map_eq_none_iff] at hq
            refine ⟨_, .inr ⟨hq, rfl⟩, ?_⟩
            rw [Pool.onLog_of_refuses (Pool.refuses_new _ _ _ _ log), onLog_of_eq hlog]
        obtain ⟨held, hheld, rfl⟩ := hfed
        exact (Pool.sameContents_onLog (h.same held hheld) (hheld.wf hf) log).2
  · rw [hslot, h.unasked hasked]
    rfl

/-- Every action does to the pool of a market what it does to the registry. -/
theorem follows_act {asked : Bool} {p : Pool} (hf : r.Filed) (h : Follows r m asked p)
    (a : Action) :
    Follows (r.act a) m (asked || a.asksFor m) (p.run (a.onPool r m asked)) := by
  cases a with
  | request missing reader m' block =>
      by_cases hm : m' = m
      · subst hm
        simpa [Action.asksFor, Action.onPool, act] using follows_request hf h missing reader block
      · have hagree : AgreeOn m r (r.act (.request missing reader m' block)) :=
          ⟨setting_act r _, slot?_getPool_of_ne hf (Ne.symm hm) missing reader block⟩
        rw [Action.onPool, if_neg hm, Action.asksFor, decide_eq_false hm, Bool.or_false]
        exact ⟨h.wf, fun q hq => h.same q (hagree.holds hq),
          fun hasked => hagree.slot.trans (h.unasked hasked)⟩
  | feed log =>
      rw [Action.asksFor, Bool.or_false, Action.onPool]
      by_cases hlog : log.address = r.deployment.orderBook
      · have hfed := follows_feed hf h hlog
        cases asked with
        | false => simpa [act, Pool.run] using hfed
        | true => simpa [act, hlog, Pool.run, Pool.act] using hfed
      · simpa [act, onLog_of_ne hlog, hlog, Pool.run] using h

/-- What a registry holds for a market after a run is what became of the market's own pool. -/
theorem follows_run {asked : Bool} {p : Pool} (hf : r.Filed) (h : Follows r m asked p)
    (actions : List Action) :
    ∃ asked', Follows (r.run actions) m asked' (p.run (poolActions m r asked actions)) := by
  induction actions generalizing r asked p with
  | nil => exact ⟨asked, h⟩
  | cons a rest ih =>
      rw [poolActions, Pool.run_append]
      exact ih (filed_act hf a) (follows_act hf h a)

/-! ## The pools of a registry -/

theorem pool?_eq_some_iff {p : Pool} : r.pool? m = some p ↔ r.slot? m = some (some p) :=
  Option.join_eq_some_iff

/-- A live pool has the contents of its market's pool on its own. -/
theorem sameContents_standalone {actions : List Action} {p : Pool} (hf : r.Filed)
    (hnew : r.slot? m = none) (hp : (r.run actions).pool? m = some p) :
    Pool.SameContents p (r.standalone actions m) := by
  obtain ⟨asked, hfollows⟩ := follows_run hf (follows_new hnew) actions
  exact hfollows.same p (.inl (pool?_eq_some_iff.mp hp))

/-- Whatever is reported of a log was applied for the one market that the log names. -/
theorem length_onLog_le_one (hf : r.Filed)
    (hhash : ∀ m m', (r.pool? m).isSome → (r.pool? m').isSome → m.hash = m'.hash → m = m')
    (log : Log) : (r.onLog log).value.2.length ≤ 1 := by
  have hlive : ∀ m e, (m, e) ∈ (r.onLog log).value.2 →
      (r.pool? m).isSome ∧ ∃ event, log.event? m.hash = some event := by
    intro m e he
    obtain ⟨-, p, hp, happlied⟩ := mem_onLog hf.nodup he
    have hslot := pool?_eq_some_iff.mp hp
    have hmarket : p.market = m := Holds.market hf (.inl hslot)
    exact ⟨by simp [hp], hmarket ▸ Pool.event?_of_applied (hf.wf m p hslot) happlied⟩
  match hreported : (r.onLog log).value.2 with
  | [] => exact Nat.zero_le 1
  | [_] => exact Nat.le_refl 1
  | (m, e) :: (m', e') :: rest =>
      exfalso
      have hmem : (m, e) ∈ (r.onLog log).value.2 := by simp [hreported]
      have hmem' : (m', e') ∈ (r.onLog log).value.2 := by simp [hreported]
      obtain ⟨hm, event, hevent⟩ := hlive m e hmem
      obtain ⟨hm', event', hevent'⟩ := hlive m' e' hmem'
      obtain rfl := hhash m m' hm hm' (Log.market_of_event? hevent hevent')
      -- But a market is reported at most once.
      have hbook := (mem_onLog hf.nodup hmem).1
      have honce : ((r.onLog log).value.2.filter fun e => e.1 = m).length ≤ 1 := by
        rw [filter_onLog hbook hf.nodup]
        exact Option.length_toList_le
      simp [hreported] at honce

/-- **A registry is a set of independent pools.** After any run, the live pool of a market has the
contents of the pool of that market on its own, and requests for other markets made no
difference. A log of another contract is reported for no market. A log of the order book is
reported once for every live pool that would apply it on its own, and at most once altogether if
no two of the live pools follow markets of the same hash. -/
theorem independent_run (dex : String) (d : Deployment) (c : PoolConfig) (actions : List Action) :
    let start := Registry.new dex d c
    let r := start.run actions
    (∀ m p, r.pool? m = some p →
      p.history = (start.standalone actions m).history ∧
        p.nesting = (start.standalone actions m).nesting ∧
        p.seededAt = (start.standalone actions m).seededAt ∧
        p.lastLog = (start.standalone actions m).lastLog) ∧
      (∀ m, r.slot? m = (start.run (actions.filter fun a => a.concerns m)).slot? m) ∧
      ∀ log, (log.address ≠ d.orderBook → (r.onLog log).value.2 = []) ∧
        (log.address = d.orderBook → ∀ m,
          ((r.onLog log).value.2.filter fun e => e.1 = m) =
            if (r.pool? m).isSome then
              (((start.standalone actions m).onLog log).value.applied.map fun e => (m, e)).toList
            else []) ∧
        ((∀ m m', (r.pool? m).isSome → (r.pool? m').isSome → m.hash = m'.hash → m = m') →
          (r.onLog log).value.2.length ≤ 1) := by
  intro start r
  have hstart : start.Filed := filed_new dex d c
  have hf : r.Filed := filed_run hstart actions
  have hdeployment : r.deployment = d := by
    obtain ⟨slots, hr⟩ := setting_run start actions
    exact congrArg Registry.deployment hr
  have hsame : ∀ m p, r.pool? m = some p → Pool.SameContents p (start.standalone actions m) :=
    fun m p hp => sameContents_standalone hstart rfl hp
  refine ⟨fun m p hp => ?_, fun m => ?_, fun log => ⟨fun hlog => ?_, fun hlog m => ?_, ?_⟩⟩
  · have h := hsame m p hp
    exact ⟨h.history, h.nesting, h.seededAt, h.lastLog⟩
  · have hagree : AgreeOn m start start := ⟨⟨start.slots, rfl⟩, rfl⟩
    exact (hagree.run hstart actions).slot.symm
  · rw [onLog_of_ne (hdeployment ▸ hlog)]
  · rw [filter_onLog (hdeployment ▸ hlog) hf.nodup]
    cases hp : r.pool? m with
    | none => rfl
    | some p =>
        have hwf := hf.wf m p (pool?_eq_some_iff.mp hp)
        rw [Option.bind_some, (Pool.sameContents_onLog (hsame m p hp) hwf log).1]
        rfl
  · exact fun hhash => length_onLog_le_one hf hhash log

/-- Two markets are asked for, of which the reader knows one, and a log of the order book and one
of another contract are fed. -/
theorem independent_run_two_markets :
    let known : Market := ⟨0xaa, 0xbb, 1⟩
    let unknown : Market := ⟨0xaa, 0xcc, 1⟩
    let served : InMemoryReader :=
      ⟨10, [⟨known, 0, [.usual 9 ⟨-1, by decide, by decide⟩ 5]⟩], false, false⟩
    let ours : Log := ⟨Deployment.arbitrum.orderBook, [], [], some 11, none, none, some 0, false⟩
    let actions : List Action :=
      [.request .empty served.reader known none, .feed ours,
        .request .empty served.reader unknown (some 11), .feed { ours with address := 0xdd }]
    (∃ p, ((new "mangrove" .arbitrum .default).run actions).pool? known = some p ∧
        p.history.snapshots.map Book.block = [11, 10] ∧ p.lastLog = some (11, 0) ∧
        p.history = ((new "mangrove" .arbitrum .default).standalone actions known).history) ∧
      ((new "mangrove" .arbitrum .default).run actions).slot? unknown = some none ∧
      ∀ log, (((new "mangrove" .arbitrum .default).run actions).onLog log).value.2.length ≤ 1 := by
  intro known unknown served ours actions
  have hslots : ((new "mangrove" .arbitrum .default).run actions).slots.map
      (fun s => (s.1, s.2.isSome)) = [(known, true), (unknown, false)] := by
    decide +kernel
  have hnotes : (((new "mangrove" .arbitrum .default).run actions).pool? known).map
      (fun p => (p.history.snapshots.map Book.block, p.lastLog)) =
        some ([11, 10], some (11, 0)) := by
    decide +kernel
  have hunknown : ((new "mangrove" .arbitrum .default).run actions).slot? unknown = some none := by
    decide +kernel
  clear_value actions
  obtain ⟨hlive, -, hreport⟩ := independent_run "mangrove" .arbitrum .default actions
  obtain ⟨p, hp, hnotes⟩ := Option.map_eq_some_iff.mp hnotes
  obtain ⟨hblocks, hlast⟩ := Prod.mk.inj hnotes
  refine ⟨⟨p, hp, hblocks, hlast, (hlive known p hp).1⟩, hunknown, fun log => ?_⟩
  have hlone : ∀ m, (((new "mangrove" .arbitrum .default).run actions).pool? m).isSome →
      m = known := by
    intro m hm
    obtain ⟨q, hq⟩ := Option.isSome_iff_exists.mp hm
    obtain ⟨s, hfind, hs⟩ := Option.map_eq_some_iff.mp (pool?_eq_some_iff.mp hq)
    have hmem := List.mem_map_of_mem (f := fun s => (s.1, s.2.isSome))
      (List.mem_of_find?_eq_some hfind)
    obtain rfl : s.1 = m := by simpa using List.find?_some hfind
    rw [hslots, hs] at hmem
    simpa using hmem
  exact (hreport log).2.2 fun m m' hm hm' _ => (hlone m hm).trans (hlone m' hm').symm

end Registry

end OfferBook
