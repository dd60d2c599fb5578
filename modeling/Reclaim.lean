import Reclaim.Main
import Reclaim.Client.Collect
import Reclaim.Console.Script
import Reclaim.Proofs.Object.HeaderBits
import Reclaim.Proofs.Object.HeaderCodec
import Reclaim.Proofs.Object.PayloadWords
import Reclaim.Proofs.Object.Types
import Reclaim.Proofs.Object.Registration
import Reclaim.Proofs.Object.Sizes
import Reclaim.Proofs.Object.ByteOrder
import Reclaim.Proofs.Cycle.Reachability
import Reclaim.Proofs.Cycle.Walk
import Reclaim.Proofs.Heap.Actions
import Reclaim.Proofs.Heap.Consistency
import Reclaim.Proofs.Cycle.Schedule
import Reclaim.Proofs.Cycle.Sweeping
import Reclaim.Proofs.Cycle.SweepAccounts
import Reclaim.Proofs.Cycle.WeakSlots
import Reclaim.Proofs.Cycle.MarkPhase
import Reclaim.Proofs.Cycle.Reclaiming
import Reclaim.Proofs.Cycle.Exactness
import Reclaim.Proofs.Cycle.Tracing
import Reclaim.Proofs.Cycle.Deferral
import Reclaim.Proofs.Cycle.Order
import Reclaim.Proofs.Heap.Requests
import Reclaim.Proofs.Run.Adequacy
import Reclaim.Proofs.Heap.Admission
import Reclaim.Proofs.Heap.Effects
import Reclaim.Proofs.Heap.Preservation
import Reclaim.Proofs.Cycle.Aftermath
import Reclaim.Proofs.Cycle.Frame
import Reclaim.Proofs.Heap.Accounts
import Reclaim.Proofs.Run.Contract
import Reclaim.Proofs.Run.Outcomes
import Reclaim.Proofs.Run.Soundness
import Reclaim.Proofs.Run.Objects
import Reclaim.Proofs.Run.RawMemory
import Reclaim.Proofs.Heap.Slots
import Reclaim.Proofs.Run.References
import Reclaim.Proofs.Run.Agreement
import Reclaim.Proofs.Run.Finalization
import Reclaim.Proofs.Run.Conservation
import Reclaim.Proofs.Run.WeakReferences
import Reclaim.Proofs.Run.Convergence
import Reclaim.Proofs.Run.Idempotence
import Reclaim.Proofs.Heap.Setup
import Reclaim.Proofs.Run.HeapSize
import Reclaim.Proofs.Run.Refusals
import Reclaim.Proofs.Heap.Access
import Reclaim.Proofs.Heap.Image
import Reclaim.Proofs.Run.Identity
import Reclaim.Proofs.Run.ByteStore
import Reclaim.Proofs.Run.Faults
import Reclaim.Proofs.Run.Reentrancy
import Reclaim.Proofs.Run.GrowthPolicy
import Reclaim.Proofs.Run.ExactSizes
import Reclaim.Proofs.Run.NewObjects
import Reclaim.Proofs.Heap.FreshMemory
import Reclaim.Proofs.Heap.Counterparts
import Reclaim.Proofs.Heap.SideBySide
import Reclaim.Proofs.Heap.Renewal
import Reclaim.Proofs.Cycle.SideBySide
import Reclaim.Proofs.Run.Blindness
import Reclaim.Proofs.Run.Lockstep
import Reclaim.Proofs.Run.Courses
import Reclaim.Proofs.Run.Renewal
import Reclaim.Proofs.Console.Slots
import Reclaim.Proofs.Heap.Roots
import Reclaim.Proofs.Heap.RootMap
import Reclaim.Proofs.Console.Upkeep
import Reclaim.Proofs.Console.Contents
import Reclaim.Proofs.Console.Collections
import Reclaim.Proofs.Console.Sessions
import Reclaim.Proofs.Console.Store
import Reclaim.Proofs.Console.Mirror
import Reclaim.Proofs.Console.Simulation
import Reclaim.Proofs.Console.Commands
import Reclaim.Proofs.Console.Refinement
import Reclaim.Proofs.Console.Reporting
import Reclaim.Proofs.Console.Recovery
import Reclaim.Proofs.Console.Labels
import Reclaim.Proofs.Console.Chronicle
