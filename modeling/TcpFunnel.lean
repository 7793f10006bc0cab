import TcpFunnel.EventLoop
import TcpFunnel.Actions
import TcpFunnel.Library.Reachability
import TcpFunnel.Invariants
import TcpFunnel.QueueInvariant
import TcpFunnel.RecordInvariant
import TcpFunnel.DescriptorInvariant
import TcpFunnel.BufferInvariant
import TcpFunnel.StageInvariant
import TcpFunnel.TransferRuns
import TcpFunnel.PipeSimulation
import TcpFunnel.SchedulerSimulation
import TcpFunnel.ClosingSimulation
import TcpFunnel.UpstreamSimulation
import TcpFunnel.AccessSimulation
import TcpFunnel.StepSimulation
import TcpFunnel.Runs
import TcpFunnel.WaitingQueue
import TcpFunnel.Admission
import TcpFunnel.SlotCounting
import TcpFunnel.PipeFlow
import TcpFunnel.WatcherInvariant
import TcpFunnel.StreamInvariant
import TcpFunnel.ClientLimit
import TcpFunnel.Isolation
import TcpFunnel.BufferOwnership
import TcpFunnel.DescriptorAccounting
import TcpFunnel.SchedulerTermination
import TcpFunnel.FailedPromotion
import TcpFunnel.AcceptErrors
import TcpFunnel.RoundRobin
import TcpFunnel.PeerTable
import TcpFunnel.LoadedListener
import TcpFunnel.LoaderMemory
import TcpFunnel.PoolGrowth
import TcpFunnel.BufferCapacity
import TcpFunnel.AllocationTermination
import TcpFunnel.LogRotation
import TcpFunnel.HandlerRotation
import TcpFunnel.HandlerRefinement
import TcpFunnel.PipeShape
import TcpFunnel.TransferResults
import TcpFunnel.QueueRuns
import TcpFunnel.WaitingLinks
import TcpFunnel.LinkedPoolRuns
import TcpFunnel.ZmallocRefinement
import TcpFunnel.PipeAccounts
import TcpFunnel.LifeCycle
import TcpFunnel.WindDown
import TcpFunnel.ExchangeRefinement
import TcpFunnel.Delivery
