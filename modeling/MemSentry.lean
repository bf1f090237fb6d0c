import MemSentry.Library.ByteMemory
import MemSentry.Library.EvictingRing
import MemSentry.Library.FiniteTable
import MemSentry.Library.Transition
import MemSentry.Library.ThreadPool
import MemSentry.Types
import MemSentry.Core.Header
import MemSentry.Core.RedZone
import MemSentry.Core.BlockLayout
import MemSentry.Core.BlockIntegrity
import MemSentry.Core.BlockContainment
import MemSentry.Core.CanaryExactness
import MemSentry.Core.ShardedTracker
import MemSentry.Core.TrackerContents
import MemSentry.Core.TrackerHistory
import MemSentry.Core.SnapshotScan
import MemSentry.Profiler.Histogram
import MemSentry.Profiler.Snapshot
import MemSentry.Manager.World
import MemSentry.Manager.Operations
import MemSentry.Manager.Runs
import MemSentry.Manager.Effects
import MemSentry.Manager.Ownership
import MemSentry.Manager.SafeRuns
import MemSentry.Manager.Lifecycle
import MemSentry.Manager.GuardedRelease
import MemSentry.Manager.Hooks
import MemSentry.Manager.Alignment
import MemSentry.Manager.TrackerCalls
import MemSentry.Manager.DoubleFree
import MemSentry.Manager.BlockContents
import MemSentry.Manager.FalseAlarm
import MemSentry.Manager.Reconfiguration
import MemSentry.Concurrent.Accounts
import MemSentry.Concurrent.Machine
import MemSentry.Concurrent.Steps
import MemSentry.Concurrent.Entries
import MemSentry.Concurrent.Solo
import MemSentry.Concurrent.Accounting
import MemSentry.Concurrent.SnapshotDiff
import MemSentry.Core.CorruptedHeaders
import MemSentry.Manager.CorruptedBlocks
import MemSentry.Concurrent.Watchdog
import MemSentry.Concurrent.StatsSnapshot
import MemSentry.Concurrent.Histograms
import MemSentry.Manager.OneConfiguration
import MemSentry.Manager.Reallocation
import MemSentry.Library.WeightedPaths
import MemSentry.Profiler.Flamegraph
import MemSentry.Library.Numeral
import MemSentry.Profiler.FoldedStacks
import MemSentry.Library.Json
import MemSentry.Reporter.JsonReporter
import MemSentry.Reporter.ReportText
import MemSentry.Reporter.ReportReader
import MemSentry.Manager.Calloc
import MemSentry.Manager.FreedPointers
import MemSentry.Manager.HeaderLookup
import MemSentry.Concurrent.HighWater
import MemSentry.Concurrent.SampledRates
import MemSentry.Manager.ByteSampling
import MemSentry.Manager.TagAttribution
import MemSentry.Core.SuppressionEngine
import MemSentry.Manager.LeakReports
import MemSentry.Library.Html
import MemSentry.Reporter.HtmlReporter
import MemSentry.Reporter.HtmlText
import MemSentry.Core.ShardHash
import MemSentry.Manager.StackCapture
import MemSentry.Library.Xml
import MemSentry.Library.XmlDocument
import MemSentry.Manager.PosixMemalign
import MemSentry.Profiler.FlamegraphSvg
import MemSentry.Profiler.SvgText
import MemSentry.Concurrent.LockedSnapshot
import MemSentry.Concurrent.Locking
import MemSentry.Concurrent.Progress
import MemSentry.Concurrent.SnapshotSeries
import MemSentry.Concurrent.SymbolCache
import MemSentry.Library.Allocator
import MemSentry.Library.BinaryPolynomials
import MemSentry.Manager.Clients
import MemSentry.Manager.FullTracking
import MemSentry.Manager.UniformDraws
import MemSentry.Concurrent.Contents
import MemSentry.Concurrent.SharedAllocator
