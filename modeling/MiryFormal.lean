import MiryFormal.Shared.Runs
import MiryFormal.Shared.Locks
import MiryFormal.Orderbook.TrackerRuns
import MiryFormal.Pipeline.ConnectionBook
import MiryFormal.Pipeline.BookAgreement
import MiryFormal.Pipeline.SnapshotOrder
import MiryFormal.Pipeline.BookSoundness
import MiryFormal.Pipeline.L2Coverage
import MiryFormal.Pipeline.GapPairing
import MiryFormal.Pipeline.QualityAgreement
import MiryFormal.Pipeline.QualityMarkers
import MiryFormal.Pipeline.GapRoundTrip
import MiryFormal.Pipeline.DaySplit
import MiryFormal.Collector.GapCrash
import MiryFormal.Collector.GapRollover
import MiryFormal.Universe.RotationLimits
import MiryFormal.Universe.Versions
import MiryFormal.Universe.MembershipCrash
import MiryFormal.Transfer.Republication
import MiryFormal.Transfer.SealedDays
import MiryFormal.Transfer.AckRecovery
import MiryFormal.Pipeline.DedupDays
import MiryFormal.Collector.WriterPool
import MiryFormal.Collector.AddReadyRemove
import MiryFormal.Collector.RouteGaps
import MiryFormal.Collector.BackdatedGaps
import MiryFormal.Collector.LivenessRuns
import MiryFormal.Collector.OrphanedGaps
import MiryFormal.Collector.DayIndex
import MiryFormal.Collector.Lease
import MiryFormal.Collector.ShardingRuns
import MiryFormal.Pipeline.SymbolProjection
import MiryFormal.Pipeline.CheckpointRestore
import MiryFormal.Collector.ByteAccounting
import MiryFormal.Collector.DepthRecovery
import MiryFormal.Collector.DepthGaps
import MiryFormal.Transfer.DownloadLanes
import MiryFormal.Universe.BucketSwaps
import MiryFormal.Pipeline.ZeroText
import MiryFormal.Universe.Dominance
import MiryFormal.Collector.TrafficRecorder
import MiryFormal.Collector.DailyKlines
import MiryFormal.Pipeline.RowIdentity
import MiryFormal.Pipeline.FrameAgreement
import MiryFormal.Collector.MembershipUpdates
import MiryFormal.Collector.SubscriptionAudits
import MiryFormal.Collector.SnapshotRequests
import MiryFormal.Transfer.RsyncGateway
import MiryFormal.Collector.Downtime
import MiryFormal.Contracts.AtomicWrites
import MiryFormal.Pipeline.NormalizeRuns
import MiryFormal.Pipeline.NormalizeFlags
import MiryFormal.Pipeline.ProjectionRuns
