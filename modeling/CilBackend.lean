import CilBackend.Body.Listing
import CilBackend.Compile
import CilBackend.Fault.Report
import CilBackend.Proofs.CompileRuns
import CilBackend.Proofs.Labels
import CilBackend.Proofs.Dominance
import CilBackend.Proofs.Order
import CilBackend.Proofs.Jumps
import CilBackend.Proofs.ControlFlow
import CilBackend.Proofs.Machine
import CilBackend.Proofs.Meaning
import CilBackend.Proofs.StackDepth
import CilBackend.Proofs.StackBalance
import CilBackend.Proofs.StackPeak
import CilBackend.Proofs.StackSafety
import CilBackend.Proofs.HandlerRuns
import CilBackend.Proofs.BodyInvariant
import CilBackend.Proofs.Tiling
import CilBackend.Proofs.Regions
import CilBackend.Proofs.RegionPieces
import CilBackend.Proofs.RegionNesting
import CilBackend.Proofs.FallThrough
import CilBackend.Proofs.LoweringSimulation
import CilBackend.Proofs.RegionExits
import CilBackend.Proofs.Declarations
import CilBackend.Proofs.RelocatedRoutines
import CilBackend.Proofs.FrameAcceptance
import CilBackend.Proofs.FrameLayout
import CilBackend.Proofs.OptionChoice
import CilBackend.Proofs.EdgeSets
import CilBackend.Proofs.FailedRuns
import CilBackend.Proofs.Resolution
import CilBackend.Proofs.DominatorPreorder
import CilBackend.Proofs.OrderedGraphs
import CilBackend.Proofs.Adjacency
import CilBackend.Proofs.Acceptance
import CilBackend.Proofs.OperandOrigins
import CilBackend.Proofs.ForwardPaths
import CilBackend.Proofs.ServiceCalls
import CilBackend.Proofs.ListedTargets
import CilBackend.Proofs.LocalLimit
import CilBackend.Proofs.BlockRanges
import CilBackend.Proofs.ChildLists
import CilBackend.Proofs.GaugeRuns
import CilBackend.Proofs.LocalSlots
import CilBackend.Proofs.LookUps
import CilBackend.Proofs.FlagMasks
