import MiniOpenFX.Transactional.Serial
import MiniOpenFX.Guarantees.Pagination
import MiniOpenFX.Guarantees.Ranges
import MiniOpenFX.Guarantees.Tables
import MiniOpenFX.Guarantees.Replay
import MiniOpenFX.Guarantees.Deadlock
import MiniOpenFX.Guarantees.CachedReads
import MiniOpenFX.Guarantees.Outages
import MiniOpenFX.Guarantees.Serializability
import MiniOpenFX.Guarantees.KeyRace
import MiniOpenFX.Guarantees.Expiry
import MiniOpenFX.Guarantees.TradeOutcomes
import MiniOpenFX.Guarantees.RoundTrip
import MiniOpenFX.Guarantees.QuoteScreen
import MiniOpenFX.Guarantees.Pairs
import MiniOpenFX.Transactional.Traces
import MiniOpenFX.Guarantees.Tenants
import MiniOpenFX.Guarantees.Provenance
import MiniOpenFX.Api.Controllers
import MiniOpenFX.Api.Server
import MiniOpenFX.Guarantees.CacheTexts
import MiniOpenFX.Guarantees.Contract
import MiniOpenFX.Guarantees.Gate
import MiniOpenFX.Guarantees.HistoryScreen
import MiniOpenFX.Guarantees.Integrity
import MiniOpenFX.Guarantees.Wire
