import OfferBook.Emitter
import OfferBook.Main
import OfferBook.Reader.InMemory
import OfferBook.Proofs.Consistency
import OfferBook.Proofs.Feeding
import OfferBook.Proofs.Outcomes
import OfferBook.Proofs.Redelivery
import OfferBook.Proofs.Run
import OfferBook.Proofs.Replay
import OfferBook.Proofs.LastWrite
import OfferBook.Proofs.OpenOrder
import OfferBook.Proofs.Bookkeeping
import OfferBook.Proofs.Terms
import OfferBook.Proofs.Reseeding
import OfferBook.Proofs.Independence
import OfferBook.Proofs.CacheKey
import OfferBook.Proofs.MissingMarkets
import OfferBook.Proofs.Fetching
import OfferBook.Proofs.Seeding
import OfferBook.Proofs.Views
import OfferBook.Proofs.Retrying
import OfferBook.Proofs.Emission
import OfferBook.Proofs.Continuity
import OfferBook.Proofs.ChainHead
import OfferBook.Proofs.Following
import OfferBook.Proofs.Clients
import OfferBook.Proofs.Endings
import OfferBook.Proofs.LiveSnapshots
import OfferBook.Proofs.Aggregating
import OfferBook.Proofs.Readiness
import OfferBook.Proofs.Distinctness
import OfferBook.Proofs.Permanence
import OfferBook.Proofs.Routing
import OfferBook.Proofs.Truncation
import OfferBook.Proofs.SortedPages
import OfferBook.Proofs.Commuting
import OfferBook.Proofs.Relisting
import OfferBook.Proofs.Unmarked
import OfferBook.Proofs.Screens
import OfferBook.Proofs.Indentation
import OfferBook.Proofs.PriceLevels
import OfferBook.Proofs.FrameTable
