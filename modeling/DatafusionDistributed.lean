import DatafusionDistributed.DistributedPlanner.FoldTasks
import DatafusionDistributed.DistributedPlanner.PlannedShuffles
import DatafusionDistributed.Coordinator.ProducerAgreement
import DatafusionDistributed.ExecutionPlans.Broadcast
import DatafusionDistributed.Worker.AbnormalEnd
import DatafusionDistributed.Events.Defaults.ScaledScanOrder
import DatafusionDistributed.ExecutionPlans.OrderingsHold
import DatafusionDistributed.DistributedPlanner.PartialReduceResults
import DatafusionDistributed.DistributedPlanner.PlanningErrors
import DatafusionDistributed.DistributedPlanner.CollectJoinSafety
import DatafusionDistributed.Worker.CoordinatorChannel
import DatafusionDistributed.DynamicFiltering.Anchors
import DatafusionDistributed.Coordinator.FilterConfluence
import DatafusionDistributed.Coordinator.BidirectionalStream
import DatafusionDistributed.DistributedPlanner.CollectJoinResults
import DatafusionDistributed.DistributedPlanner.PushFetchResults
import DatafusionDistributed.Codec.UserCodecs
import DatafusionDistributed.Config.PassthroughHeaders
import DatafusionDistributed.Config.Propagation
import DatafusionDistributed.Codec.DistributedExecProto
import DatafusionDistributed.Protocol.Demultiplexing
import DatafusionDistributed.Recursion.Executed
import DatafusionDistributed.Recursion.TaskCounts
import DatafusionDistributed.Recursion.TransformUpAsync
import DatafusionDistributed.WorkUnitFeed.RemoteWorkUnitFeed
import DatafusionDistributed.Common.Vec
import DatafusionDistributed.Coordinator.Spawner
import DatafusionDistributed.Events.Defaults.DialAttempts
import DatafusionDistributed.Events.Defaults.StageRouting
import DatafusionDistributed.Iceberg.ColumnStatistics
import DatafusionDistributed.ExecutionPlans.Sampler
