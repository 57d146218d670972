import StorageStack.Execution
import StorageStack.WriteBuffer
import StorageStack.WriteBufferOrder
import StorageStack.BitMap
import StorageStack.F2fs.Geometry
import StorageStack.F2fs.SegmentState
import StorageStack.F2fs.SegmentLists
import StorageStack.F2fs.CurrentSegment
import StorageStack.F2fs.BlockAllocation
import StorageStack.F2fs.Consistency
import StorageStack.F2fs.AllocationSteps
import StorageStack.F2fs.BlockOperations
import StorageStack.F2fs.SitFlush
import StorageStack.F2fs.CheckpointSteps
import StorageStack.F2fs.Mount
import StorageStack.F2fs.SegmentManager
import StorageStack.F2fs.AllocationSafety
import StorageStack.F2fs.SegmentClasses
import StorageStack.F2fs.WritePath
import StorageStack.F2fs.PageAlignment
import StorageStack.Ftl.ExtentsNode
import StorageStack.HostQueue
import StorageStack.F2fs.SitStorage
import StorageStack.F2fs.SitSets
import StorageStack.F2fs.SitRoundTrip
import StorageStack.F2fs.SitInvariant
import StorageStack.F2fs.Discards
import StorageStack.F2fs.DiscardSafety
import StorageStack.BlockDevice
import StorageStack.F2fs.CheckpointPack
import StorageStack.F2fs.PackLayout
import StorageStack.F2fs.PackReadBack
import StorageStack.F2fs.NatStorage
import StorageStack.F2fs.NatCache
import StorageStack.F2fs.NatTable
import StorageStack.F2fs.NatFlush
import StorageStack.F2fs.NatHistory
import StorageStack.F2fs.FreeNids
import StorageStack.F2fs.NidHistory
import StorageStack.F2fs.CheckpointHistory
import StorageStack.F2fs.CheckpointAtomic
import StorageStack.F2fs.CheckpointLimits
import StorageStack.F2fs.DentryBlock
import StorageStack.F2fs.Directory
import StorageStack.F2fs.DirectoryHistory
import StorageStack.IntervalTree
import StorageStack.Pos.Areas
import StorageStack.Pos.SystemCalls
import StorageStack.Pos.AreaLayout
import StorageStack.Pos.AreaChanges
import StorageStack.Pos.Objects
import StorageStack.Pos.Segments
import StorageStack.Pos.Processes
import StorageStack.Pos.WellFormed
import StorageStack.F2fs.FlushMerge
import StorageStack.Pos.HoleSearch
import StorageStack.F2fs.Acl
import StorageStack.F2fs.FsyncLoop
import StorageStack.Pos.AccessRights
import StorageStack.Pos.Counters
import StorageStack.Pos.FailedCalls
import StorageStack.Pos.Sharing
import StorageStack.Pos.MapLookup
import StorageStack.Pos.PartialFree
import StorageStack.KeyedTree
import StorageStack.Pos.Pval
import StorageStack.Pos.PvalMap
import StorageStack.Ftl.PageAllocation
import StorageStack.BufferManager.Frames
import StorageStack.Ftl.ClockCache
import StorageStack.BufferManager.EventQueue
import StorageStack.BufferManager.QueueShape
import StorageStack.BufferManager.ReadOrder
import StorageStack.WriteBufferLinks
import StorageStack.Ftl.WriteRequests
import StorageStack.Ftl.ReadRequests
import StorageStack.F2fs.NodePath
import StorageStack.F2fs.ExtentCache
import StorageStack.F2fs.FreeMaps
import StorageStack.F2fs.FsyncChain
import StorageStack.F2fs.VictimSelection
import StorageStack.F2fs.SegmentCleaning
import StorageStack.F2fs.CompactedSummaries
import StorageStack.F2fs.Xattr
import StorageStack.F2fs.XattrUpdate
import StorageStack.F2fs.XattrAtomic
import StorageStack.F2fs.Truncation
import StorageStack.F2fs.TruncationCut
import StorageStack.F2fs.TruncationResult
import StorageStack.F2fs.TruncationTail
import StorageStack.F2fs.CostBenefit
import StorageStack.F2fs.DirectoryBuckets
import StorageStack.F2fs.RoomScan
import StorageStack.Pos.FiniteMap
import StorageStack.Pos.PageRanges
import StorageStack.F2fs.SeekBlock
import StorageStack.F2fs.Fallocate
import StorageStack.F2fs.NidSearch
import StorageStack.F2fs.Trim
import StorageStack.F2fs.TrimRange
import StorageStack.Ftl.MappedReads
import StorageStack.Pos.Growth
import StorageStack.F2fs.Format
import StorageStack.F2fs.FormatDevice
import StorageStack.F2fs.FormatMount
import StorageStack.F2fs.FormatRecovery
import StorageStack.F2fs.DirectoryLinks
import StorageStack.F2fs.Namespace
import StorageStack.F2fs.NamespaceCalls
import StorageStack.F2fs.NamespaceExchange
import StorageStack.F2fs.NamespaceHistory
