import OfferBook.Address
import OfferBook.Text.Lowercase

/-!
# Markets

A market is one offer list of the contract: its offers give the outbound token, want the inbound
token, and stand on prices a tick spacing apart. A taker who swaps a source token for a
destination token consumes the list that gives the destination, so `Market.ofTrade` puts the
destination first, and everything else (the contract's key, its hash, the cache key and the text)
is read off the market.
-/

namespace OfferBook

/-- One offer list: what its offers give, what they want, and how far apart its prices stand. -/
structure Market where
  outbound : Address
  inbound : Address
  spacing : UInt64
  deriving DecidableEq, Inhabited

namespace Market

/-- The market that a taker giving `source` and receiving `destination` consumes. -/
def ofTrade (source destination : Address) (spacing : UInt64) : Market :=
  ⟨destination, source, spacing⟩

/-- The contract's key of the market: outbound token, inbound token, spacing. -/
def key (m : Market) : List Word :=
  [Word.ofAddress m.outbound, Word.ofAddress m.inbound, Word.ofUInt64 m.spacing]

/-- The key as call data. -/
def keyBytes (m : Market) : Bytes := m.key.flatMap Word.bytes

/-- The hash with which the contract tags every event of the market. -/
def hash (m : Market) : Word := keccak256 m.keyBytes

/-- The key under which quotes of the exchange `dex` are correlated back to the market. -/
def cacheKey (m : Market) (dex : String) : String :=
  Text.lowercase s!"{dex}_{m.outbound.text}_{m.inbound.text}_{m.spacing.toNat}"

/-- The market as messages name it. -/
def text (m : Market) : String :=
  s!"{m.outbound.text}/{m.inbound.text} (tick spacing {m.spacing.toNat})"

end Market

end OfferBook
