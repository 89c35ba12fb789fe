import OfferBook.Address

/-!
# Deployments and tuning

Where the contracts of one exchange live, and how its pools are tuned. The tuning numbers are
positive by construction: a request for zero is taken as one.
-/

namespace OfferBook

/-- A chain and the contracts on it: the order book, the reader of offer lists and the aggregator
of calls. -/
structure Deployment where
  chainId : Nat
  orderBook : Address
  reader : Address
  aggregator : Address
  deriving DecidableEq

/-- The deployment on Arbitrum. -/
def Deployment.arbitrum : Deployment where
  chainId := 42161
  orderBook := 0x109d9CDFA4aC534354873EF634EF63C235F93f61
  reader := 0x7E108d7C9CADb03E026075Bf242aC2353d0D1875
  aggregator := 0xcA11bde05977b3631167028862bE2a173976CA11

/-- How pools are tuned. -/
structure PoolConfig where
  /-- A failed pool tries again at every request whose number is a multiple of this. -/
  retryEvery : Nat
  /-- How many snapshots a pool retains. -/
  retained : Nat
  /-- How many offers are asked for when a pool is seeded. -/
  pageSize : UInt64
  retryEvery_pos : 0 < retryEvery
  retained_pos : 0 < retained
  pageSize_pos : 0 < pageSize
  deriving DecidableEq

namespace PoolConfig

/-- The usual tuning. -/
def default : PoolConfig := ⟨10, 30, 100, by decide, by decide, by decide⟩

instance : Inhabited PoolConfig := ⟨default⟩

/-- With another retry frequency. -/
def withRetryEvery (c : PoolConfig) (n : Nat) : PoolConfig :=
  { c with retryEvery := max n 1, retryEvery_pos := by omega }

/-- With another number of retained snapshots. -/
def withRetained (c : PoolConfig) (n : Nat) : PoolConfig :=
  { c with retained := max n 1, retained_pos := by omega }

/-- With another page size. -/
def withPageSize (c : PoolConfig) (n : UInt64) : PoolConfig :=
  { c with
    pageSize := if 0 < n then n else 1
    pageSize_pos := by split <;> simp_all }

end PoolConfig

end OfferBook
