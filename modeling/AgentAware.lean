import AgentAware.Core.PQDistances
import AgentAware.Core.PQEncoder
import AgentAware.Core.PQTraining
import AgentAware.Core.Types
import AgentAware.Dynamic.Acceptance
import AgentAware.Dynamic.AcknowledgedReads
import AgentAware.Dynamic.BaseDeltaMerge
import AgentAware.Dynamic.Compaction
import AgentAware.Dynamic.CompactionLoss
import AgentAware.Dynamic.Directory
import AgentAware.Dynamic.Disk
import AgentAware.Dynamic.DynamicRecord
import AgentAware.Dynamic.DynamicWriteManager
import AgentAware.Dynamic.EngineSearch
import AgentAware.Dynamic.FailedWrites
import AgentAware.Dynamic.FaultPatterns
import AgentAware.Dynamic.HybridSearch
import AgentAware.Dynamic.LogDamage
import AgentAware.Dynamic.Manifest
import AgentAware.Dynamic.ManifestRoundTrip
import AgentAware.Dynamic.ManifestText
import AgentAware.Dynamic.MemTable
import AgentAware.Dynamic.Operations
import AgentAware.Dynamic.ReadIsolation
import AgentAware.Dynamic.ReadView
import AgentAware.Dynamic.RecordCodec
import AgentAware.Dynamic.Recovery
import AgentAware.Dynamic.Runs
import AgentAware.Dynamic.SSTable
import AgentAware.Dynamic.SSTableContents
import AgentAware.Dynamic.SSTableInternal
import AgentAware.Dynamic.Session
import AgentAware.Dynamic.TornTail
import AgentAware.Dynamic.Wal
import AgentAware.Graph.BestHeap
import AgentAware.Graph.BuildGraph
import AgentAware.Graph.BuildInvariants
import AgentAware.Graph.DecodedPages
import AgentAware.Graph.DeletedResults
import AgentAware.Graph.DiskPageCodec
import AgentAware.Graph.EntryPoints
import AgentAware.Graph.EntrySelector
import AgentAware.Graph.EpochSearch
import AgentAware.Graph.FullBudget
import AgentAware.Graph.GraphBuilder
import AgentAware.Graph.GraphInvariants
import AgentAware.Graph.IndexSize
import AgentAware.Graph.LshIndex
import AgentAware.Graph.NaiveIndexFile
import AgentAware.Graph.NaiveIndexRoundTrip
import AgentAware.Graph.NaiveNodePage
import AgentAware.Graph.NaiveSearch
import AgentAware.Graph.NaiveStoredSearch
import AgentAware.Graph.PackedIndexFile
import AgentAware.Graph.PackedIndexRoundTrip
import AgentAware.Graph.PackedOrder
import AgentAware.Graph.PackedPageEncoder
import AgentAware.Graph.PackedPageRoundTrip
import AgentAware.Graph.PackedPermutation
import AgentAware.Graph.PackedSearch
import AgentAware.Graph.PrefetchChoice
import AgentAware.Graph.ProjectionGraph
import AgentAware.Graph.RobustPrune
import AgentAware.Graph.SearchCoverage
import AgentAware.Graph.SearchPostcondition
import AgentAware.Graph.VamanaBuilder
import AgentAware.Lib.BestPerKey
import AgentAware.Lib.Buckets
import AgentAware.Lib.ByteChange
import AgentAware.Lib.Checked
import AgentAware.Lib.Codec
import AgentAware.Lib.Decides
import AgentAware.Lib.EpochMarks
import AgentAware.Lib.Greedy
import AgentAware.Lib.Interaction
import AgentAware.Lib.Nearest
import AgentAware.Lib.PageFile
import AgentAware.Lib.Prog
import AgentAware.Lib.Relies
import AgentAware.Lib.Returns
import AgentAware.Lib.ReturnsFrom
import AgentAware.Lib.Roles
import AgentAware.Lib.Rows
import AgentAware.Lib.Text
import AgentAware.Lib.TopK
import AgentAware.Lib.Versions
import AgentAware.Lib.Walk
import AgentAware.Packed.BuiltSearch
import AgentAware.Packed.CacheRuns
import AgentAware.Packed.DemandBuffers
import AgentAware.Packed.NodeContents
import AgentAware.Packed.NodeSession
import AgentAware.Packed.PageCache
import AgentAware.Packed.PageContents
import AgentAware.Packed.PageReader
import AgentAware.Packed.PageReaderInvariant
import AgentAware.Packed.PageReaderRuns
import AgentAware.Packed.PageSession
import AgentAware.Packed.PinLifetime
import AgentAware.Packed.PrefetchAccounting
import AgentAware.Packed.QuerySequence
import AgentAware.Packed.ReaderBuffers
import AgentAware.Packed.ReaderDepth
import AgentAware.Packed.Reconfigure
import AgentAware.Packed.RingDelivery
import AgentAware.Packed.SearchAgreement
import AgentAware.Packed.SearchTransparency
import AgentAware.Packed.SessionInvariant
import AgentAware.Packed.SessionReads
import AgentAware.Packed.SessionRuns
import AgentAware.Packed.SessionSearch
import AgentAware.Prefetch.ModelScore
import AgentAware.Prefetch.PlanAccounting
import AgentAware.Prefetch.PlanRanking
import AgentAware.Prefetch.PlanSelection
import AgentAware.Prefetch.Planner
import AgentAware.Prefetch.RankerAgreement
import AgentAware.Prefetch.RankerDump
import AgentAware.Prefetch.RankerLines
import AgentAware.Storage.Block
import AgentAware.Storage.DeltaFlatIndex
import AgentAware.Storage.DeltaIvfFlatIndex
import AgentAware.Storage.DiskIndex
import AgentAware.Storage.DiskRecord
import AgentAware.Storage.MergeTopk
import AgentAware.Storage.PageDamage
import AgentAware.Storage.Wal
