import MarketAggregator.GuardedRuns
import MarketAggregator.StreamAssignment
import MarketAggregator.HoldDeadline
import MarketAggregator.LeaseSafety
import MarketAggregator.SettlingNotice
import MarketAggregator.CoinbaseCompleteness
import MarketAggregator.TrustedReplay
import MarketAggregator.AggregatorApply
import MarketAggregator.IngestChannel
import MarketAggregator.SessionMixing
import MarketAggregator.ResyncDuty
import MarketAggregator.KrakenChecksums
import MarketAggregator.BitstampSplice
import MarketAggregator.VenueDispatch
import MarketAggregator.SnapshotRepair
import MarketAggregator.BookInvariants
import MarketAggregator.DropAccounting
import MarketAggregator.FakeFeed
import MarketAggregator.EventReplay
import MarketAggregator.RequestSessions
import MarketAggregator.WindowHistory
import MarketAggregator.LateStamps
import MarketAggregator.ArchiveOrder
import MarketAggregator.RegistryFiles
import MarketAggregator.FinalReceives
import MarketAggregator.LostWakeups
import MarketAggregator.DesyncAccounts
import MarketAggregator.PrintInsertions
import MarketAggregator.MergeOrder
import MarketAggregator.FreshestClaims
import MarketAggregator.SoleNode
import MarketAggregator.TapeTee
import MarketAggregator.AuditEvidence
import MarketAggregator.TouchEligibility
import MarketAggregator.DepthTracking
import MarketAggregator.KrakenDigits
import MarketAggregator.ReleasedStreams
import MarketAggregator.PooledWindows
import MarketAggregator.PriceLimits
import MarketAggregator.ReconnectBackoff
import MarketAggregator.CivilDays
import MarketAggregator.TimestampGrammar
import MarketAggregator.ArchiveReplay
import MarketAggregator.TapeText
import MarketAggregator.FreshKeys
import MarketAggregator.ChunkedEvents
import MarketAggregator.FakeScripts
import MarketAggregator.ReplayedViews
import MarketAggregator.LeaseConvergence
import MarketAggregator.LaneOrders
import MarketAggregator.StreamIndependence
import MarketAggregator.ArchivedBooks
import MarketAggregator.DirectoryTrees
import MarketAggregator.ScopedBuckets
import MarketAggregator.ShardedViews
import MarketAggregator.SlowPasses
