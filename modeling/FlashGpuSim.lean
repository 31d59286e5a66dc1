import FlashGpuSim.Dsm.FabricCredits
import FlashGpuSim.Dsm.FabricOrder
import FlashGpuSim.Dsm.FabricProgress
import FlashGpuSim.Dsm.EndpointIsolation
import FlashGpuSim.Mbarrier.Phases
import FlashGpuSim.Groups.BulkGroupOrder
import FlashGpuSim.Groups.CpAsyncOrder
import FlashGpuSim.Mbarrier.Wakeups
import FlashGpuSim.Tcgen05.Completion
import FlashGpuSim.Ptx.RegAllocSound
import FlashGpuSim.Cache.FillOwnership
import FlashGpuSim.Cache.MissService
import FlashGpuSim.Dram.InFlight
import FlashGpuSim.L2.Coalescing
import FlashGpuSim.Mbarrier.NamedGenerations
import FlashGpuSim.Addrdec.Aliasing
import FlashGpuSim.Cluster.ClusterRelease
import FlashGpuSim.Groups.WgmmaWaits
import FlashGpuSim.Cluster.CtaOrder
import FlashGpuSim.Cluster.CtaBooks
import FlashGpuSim.Cluster.CtaIssueRules
import FlashGpuSim.Cluster.MapaOwner
import FlashGpuSim.ServiceBudget
import FlashGpuSim.Tcgen05.BackendQueue
import FlashGpuSim.Scoreboard.Ownership
import FlashGpuSim.Tcgen05.TmemStore
import FlashGpuSim.Interconnect.IslipFairness
import FlashGpuSim.Interconnect.XbarConservation
import FlashGpuSim.Tma.SwizzledTile
import FlashGpuSim.Tma.TileReduction
import FlashGpuSim.Groups.CpAsyncArrivals
import FlashGpuSim.Prefetch.StreamWindow
import FlashGpuSim.Dram.SimpleDramBudget
import FlashGpuSim.L2.RopDelayOutput
import FlashGpuSim.OperandCollector.ReadLimit
import FlashGpuSim.OperandCollector.OperandsOnce
import FlashGpuSim.Coalesce.ChunkCrossing
import FlashGpuSim.Kernel.CtaStreams
import FlashGpuSim.Alu.Multiply
import FlashGpuSim.Alu.BitField
import FlashGpuSim.Alu.Convert
import FlashGpuSim.Dsm.LocalRetry
import FlashGpuSim.Tensor.MatrixFragments
import FlashGpuSim.Tensor.GmmaTile
import FlashGpuSim.Tensor.MmaAgreement
import FlashGpuSim.Cluster.SmAccounting
import FlashGpuSim.Dsm.FabricGrants
import FlashGpuSim.Alu.Prmt
import FlashGpuSim.Alu.Shift
import FlashGpuSim.Memory.FlatMemory
import FlashGpuSim.Memory.LocalAddress
import FlashGpuSim.Memory.LocalWords
import FlashGpuSim.Memory.GenericAddress
import FlashGpuSim.Memory.AddressRoundTrip
import FlashGpuSim.Mbarrier.Reductions
import FlashGpuSim.Mbarrier.QuietMoves
import FlashGpuSim.Mbarrier.ReductionRuns
import FlashGpuSim.Mbarrier.ReductionSteps
import FlashGpuSim.Lib.Lanes
import FlashGpuSim.Warp.ThreadRegs
import FlashGpuSim.Warp.Shfl
import FlashGpuSim.Lib.MaskedLoops
import FlashGpuSim.Warp.Vote
import FlashGpuSim.Warp.Collectives
import FlashGpuSim.Dsm.VoqAccounting
import FlashGpuSim.Lib.Dominance
import FlashGpuSim.Ptx.Dominators
