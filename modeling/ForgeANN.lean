import ForgeANN.Common.Float
import ForgeANN.Common.Basic
import ForgeANN.Lib.Rank
import ForgeANN.Lib.SortDedup
import ForgeANN.Lib.Transition
import ForgeANN.Lib.ByteFile
import ForgeANN.HashPrune.Reservoir
import ForgeANN.HashPrune.Offers
import ForgeANN.HashPrune.Nearest
import ForgeANN.HashPrune.History
import ForgeANN.Storage.DirectIo
import ForgeANN.Storage.DirectRead
import ForgeANN.Storage.SketchBuild
import ForgeANN.Storage.LostUpdate
import ForgeANN.Spill.SegmentRead
import ForgeANN.Spill.Lossless
import ForgeANN.Spill.Refinement
import ForgeANN.Spill.MemoryAgreement
import ForgeANN.Spill.ResidentPrefix
import ForgeANN.Rbc.ExternalPartition
import ForgeANN.Scheduler.Outcome
import ForgeANN.Scheduler.Quiescence
import ForgeANN.Gather.BoundedPlan
import ForgeANN.ViewLune.Maintenance
import ForgeANN.Graph.MemIndex
import ForgeANN.Graph.FixedDegree
import ForgeANN.Points.VectorRun
import ForgeANN.Rbc.PrefetchExit
import ForgeANN.Rbc.EmitLeaf
import ForgeANN.Scheduler.Drainers
import ForgeANN.Scheduler.CreditRuns
import ForgeANN.Sketch.ReadsAgree
import ForgeANN.Rbc.RunRoundTrip
import ForgeANN.Rbc.LeaderLimit
import ForgeANN.Rbc.MorselProgress
import ForgeANN.Rbc.LevelScanRuns
import ForgeANN.HashPrune.Residence
import ForgeANN.Storage.DirectWrite
import ForgeANN.Points.PipelineShutdown
import ForgeANN.Rbc.MergedClusters
import ForgeANN.HashPrune.Closest
import ForgeANN.Rbc.BottomK
import ForgeANN.SpineOverlay.Select
import ForgeANN.ViewLune.Reduction
import ForgeANN.Rbc.GemmTile
import ForgeANN.Rbc.HotVectorRun
import ForgeANN.SpineOverlay.Accumulator
import ForgeANN.Points.PlannedRead
import ForgeANN.Prune.RobustPrune
import ForgeANN.Prune.Rounds
import ForgeANN.Prune.SinglePrecision
import ForgeANN.Prune.Coverage
import ForgeANN.Rbc.JoinClusters
import ForgeANN.Dataset.InmemDataset
import ForgeANN.Points.WindowCacheRuns
import ForgeANN.Budget.SketchBuildPlan
import ForgeANN.Budget.MemoryPlan
import ForgeANN.Search.Recall
import ForgeANN.Search.VisitTracker
import ForgeANN.Search.LocalOptimum
import ForgeANN.Search.ParallelSearch
import ForgeANN.Rbc.ResidentGroups
import ForgeANN.Leaf.TopKBuffers
import ForgeANN.Leaf.RowTopKSorted
import ForgeANN.Leaf.ActiveMask
import ForgeANN.Leaf.EdgesFirst
import ForgeANN.Leaf.PathsAgree
import ForgeANN.Leaf.RowsRefine
import ForgeANN.Utils.ClosestCenters
import ForgeANN.Utils.CenterRows
import ForgeANN.Utils.CenterRuns
import ForgeANN.Utils.NearestCenters
import ForgeANN.Scheduler.BatchDelivery
import ForgeANN.Leaf.LeafAdsTilesRuns
import ForgeANN.Rbc.AdsStreamingHangs
import ForgeANN.ViewLune.GraphShards
import ForgeANN.Points.PipelineReads
import ForgeANN.Rbc.GroupPipelineRuns
