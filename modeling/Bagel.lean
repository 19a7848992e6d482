import Bagel.LeaseOrder
import Bagel.Leases
import Bagel.Window
import Bagel.Ledger
import Bagel.Maintenance
import Bagel.Checkpoints
import Bagel.Replay
import Bagel.Enforcement
import Bagel.Protection
import Bagel.Validation
import Bagel.Enforceability
import Bagel.Acceptance
import Bagel.Pending
import Bagel.Rotation
import Bagel.Rewrites
import Bagel.Sequences
import Bagel.Passes
import Bagel.GateSoundness
import Bagel.Headers
import Bagel.Cookies
import Bagel.Rules
import Bagel.Scoring
import Bagel.Mazes
import Bagel.Pipeline
import Bagel.Hosts
import Bagel.RuleInvariants
import Bagel.ContextBindings
import Bagel.Backends
import Bagel.Compile
import Bagel.References
import Bagel.Thresholds
import Bagel.Verdicts
import Bagel.Forwarding
import Bagel.Bindings
import Bagel.Injection
import Bagel.Library.Percent
import Bagel.Urls
import Bagel.Library.Interleaving
import Bagel.Reload
import Bagel.Reloads
import Bagel.TravellingCookies
import Bagel.Visits
import Bagel.ContextHeaders
import Bagel.Library.Base32
import Bagel.PoisonMemory
import Bagel.Solver
import Bagel.ClientHello
import Bagel.Http2
import Bagel.AddressTexts
import Bagel.ProxyHeaders
import Bagel.ForwardedAddress
import Bagel.SourceNetworks
import Bagel.BanSpellings
import Bagel.Rates
import Bagel.RateEviction
import Bagel.Census
import Bagel.ContextKeys
import Bagel.PageBudgets
import Bagel.PageExtremes
import Bagel.HostTexts
import Bagel.Scores
import Bagel.BackendChoice
import Bagel.SolverCodec
import Bagel.FormQueries
import Bagel.HashedInputs
import Bagel.KeyOverlaps
import Bagel.RedirectTargets
import Bagel.Crawlers
import Bagel.CrawlerVerdicts
import Bagel.HeaderBlocks
import Bagel.HeaderBlockRuns
import Bagel.WireFields
import Bagel.HelloOutlines
import Bagel.Fingerprints
import Bagel.RollingTails
import Bagel.HttpDates
import Bagel.DateTexts
import Bagel.Renderers
import Bagel.RenderBudgets
import Bagel.TagFetcher
import Bagel.SerialisedTags
import Bagel.MirroredTags
import Bagel.LegibleTags
