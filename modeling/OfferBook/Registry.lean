import OfferBook.Pool

/-!
# Registries

A registry gives access to the pools of one exchange. A pool is created and seeded when its market
is first asked for. If seeding fails for the time being, the pool is served as it is and only
every so many requests it is tried again. If the market does not exist, the pool is dropped, and
the market's cache key is entered in a set that registries may share; a market in that set is
never asked about again.

Logs are fed to every live pool; each decides for itself which of them concern it.
-/

namespace OfferBook

/-- The cache keys of the markets known not to exist. -/
structure MissingMarkets where
  keys : List String
  deriving DecidableEq

namespace MissingMarkets

/-- No market is known to be missing. -/
def empty : MissingMarkets := ⟨[]⟩

/-- Whether a key was entered. -/
def contains (s : MissingMarkets) (key : String) : Bool := s.keys.contains key

/-- Enters a key. -/
def insert (s : MissingMarkets) (key : String) : MissingMarkets :=
  if s.contains key then s else ⟨key :: s.keys⟩

theorem contains_insert (s : MissingMarkets) (key other : String) :
    (s.insert key).contains other = (other == key || s.contains other) := by
  by_cases h : s.contains key
  · rw [insert, if_pos h]
    by_cases ho : other = key
    · subst ho; simp [h]
    · simp [ho]
  · rw [insert, if_neg h]
    simp only [contains, List.contains_cons]

end MissingMarkets

/-- The pools of one exchange. A market without a pool is known not to exist. -/
structure Registry where
  dex : String
  deployment : Deployment
  config : PoolConfig
  slots : List (Market × Option Pool)
  deriving DecidableEq

/-- What asking a registry for a pool comes to. -/
structure Served where
  registry : Registry
  missing : MissingMarkets
  /-- The pool, unless the market does not exist. -/
  pool : Option Pool
  /-- What was asked of the reader on the way. -/
  requests : List Request
  deriving DecidableEq

namespace Registry

/-- A registry without pools. -/
def new (dex : String) (deployment : Deployment) (config : PoolConfig) : Registry :=
  ⟨dex, deployment, config, []⟩

/-- What the registry holds for a market it was asked for. -/
def slot? (r : Registry) (m : Market) : Option (Option Pool) :=
  (r.slots.find? fun s => s.1 = m).map Prod.snd

/-- The live pool of a market. -/
def pool? (r : Registry) (m : Market) : Option Pool := (r.slot? m).join

/-- The live pools. -/
def pools (r : Registry) : List Pool := r.slots.filterMap Prod.snd

/-- The slots with what is held for a market replaced, or added behind them. -/
def place (m : Market) (slot : Option Pool) :
    List (Market × Option Pool) → List (Market × Option Pool)
  | [] => [(m, slot)]
  | (m', slot') :: rest =>
    if m' = m then (m, slot) :: rest else (m', slot') :: place m slot rest

/-- The registry holding this for a market. -/
def put (r : Registry) (m : Market) (slot : Option Pool) : Registry :=
  { r with slots := place m slot r.slots }

/-- The pool at a request for it, and whether the request is one that seeds: the first ones until
seeding was tried, and after a failure every so many. -/
def dueForSeeding (r : Registry) (p : Pool) : Pool × Bool :=
  if p.failed then
    let p := p.countAttempt
    (p, p.attempts % r.config.retryEvery = 0)
  else (p, p.seededAt.isNone)

/-- The block to seed at: the one asked for, or the head of the chain. -/
def resolveBlock (reader : Reader) : Option Nat → Except Fault Nat × List Request
  | some block => (.ok block, [])
  | none => (reader.head, [.head])

/-- Seeds a pool for a request and files what becomes of it. -/
def seedAt (r : Registry) (missing : MissingMarkets) (reader : Reader) (p : Pool) (block : Nat)
    (asked : List Request) : Traced Served := do
  let requests := asked ++ [.batch p.fetcher.request block]
  match ← p.seed reader block with
  | (p, none) => ⟨⟨r.put p.market (some p), missing, some p, requests⟩, [.poolSeeded]⟩
  | (p, some fault) =>
    if fault.isPermanent then
      ⟨⟨r.put p.market none, missing.insert (p.market.cacheKey r.dex), none, requests⟩,
        [.marketMissing]⟩
    else ⟨⟨r.put p.market (some p), missing, some p, requests⟩, [.seedingFailed]⟩

/-- Serves a pool the registry holds, seeding it if that is due. -/
def serve (r : Registry) (missing : MissingMarkets) (reader : Reader) (p : Pool)
    (block : Option Nat) : Traced Served :=
  let (p, due) := r.dueForSeeding p
  if due then
    match resolveBlock reader block with
    | (.ok block, asked) => r.seedAt missing reader p block asked
    | (.error _, asked) =>
      let p := p.markFailed
      ⟨⟨r.put p.market (some p), missing, some p, asked⟩, [.headUnresolved]⟩
  else pure ⟨r.put p.market (some p), missing, some p, []⟩

/-- The pool of a market, created when it is first asked for and seeded at the given block or at
the head of the chain. -/
def getPool (r : Registry) (missing : MissingMarkets) (reader : Reader) (m : Market)
    (block : Option Nat) : Traced Served :=
  if missing.contains (m.cacheKey r.dex) then
    ⟨⟨r, missing, none, []⟩, [.marketKnownMissing]⟩
  else
    match r.slot? m with
    | some (some p) => r.serve missing reader p block
    | some none => pure ⟨r, missing, none, []⟩
    | none => do
      Traced.note .poolCreated
      r.serve missing reader (Pool.new r.dex r.deployment m r.config) block

/-- Feeds a log to every slot with a pool. -/
def feed (log : Log) : List (Market × Option Pool) →
    Traced (List (Market × Option Pool) × List (Market × Located BookEvent))
  | [] => pure ([], [])
  | (m, none) :: rest => do
    let (slots, applied) ← feed log rest
    pure ((m, none) :: slots, applied)
  | (m, some p) :: rest => do
    let fed ← p.onLog log
    let (slots, applied) ← feed log rest
    pure ((m, some fed.pool) :: slots, (fed.applied.map fun e => (m, e)).toList ++ applied)

/-- Feeds a log to every live pool; the events applied are listed with their markets. A log of
another contract is ignored. -/
def onLog (r : Registry) (log : Log) : Traced (Registry × List (Market × Located BookEvent)) :=
  if log.address = r.deployment.orderBook then do
    let (slots, applied) ← feed log r.slots
    pure ({ r with slots }, applied)
  else ⟨(r, []), [.logOfOtherContract]⟩

end Registry

end OfferBook
