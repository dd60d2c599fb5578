import Reclaim.Cycle.Finalize
import Reclaim.Cycle.Sweep
import Reclaim.Cycle.Weak

namespace Reclaim

structure Cycle where
  marked : Nat
  scheduled : List FinalizerEntry
  weakrefsCleared : Nat
  freed : Nat
  freedBytes : Nat

def Stats.count (stats : Stats) (cycle : Cycle) : Stats :=
  { stats with
    collections := stats.collections + 1
    objectsFreed := stats.objectsFreed + cycle.freed
    bytesFreed := stats.bytesFreed + cycle.freedBytes
    weakrefsCleared := stats.weakrefsCleared + cycle.weakrefsCleared
    lastMarked := cycle.marked
    lastFreed := cycle.freed
    lastFreedBytes := cycle.freedBytes }

def Stats.countFinalizer (stats : Stats) (entry : FinalizerEntry) : Stats :=
  { stats with
    finalizersRun := stats.finalizersRun + 1
    lightFinalizersRun := stats.lightFinalizersRun + entry.light.toNat }

namespace Heap

variable {σ : Type} [RawMemory σ]

/-- Between collections no object may carry the surviving flag: a leftover mark would let an
    unreachable object outlive the sweep. -/
def checkUnmarked (heap : Heap σ) : Except Fault Unit :=
  match (heap.objects ++ heap.external).find? heap.memory.isSurviving with
  | some object => .error (.survivingOutsideCollection object)
  | none => .ok ()

def markAndSchedule : HeapM σ (Nat × List FinalizerEntry) := do
  let reachable ← mark (← get).rootObjects
  let (scheduled, revived) ← scheduleFinalizers
  log (.markFinished reachable.length scheduled.length revived)
  return (reachable.length + revived, scheduled)

def reclaim : HeapM σ Cycle := do
  modify fun heap => { heap with collecting := true }
  log (.collectionStarted (← get).heapSize (← get).objects.size)
  check checkUnmarked
  let (marked, scheduled) ← markAndSchedule
  let weakrefsCleared ← invalidateWeak
  let sweep ← sweep
  let cycle : Cycle :=
    { marked, scheduled, weakrefsCleared, freed := sweep.freed, freedBytes := sweep.freedBytes }
  modify fun heap => { heap with stats := heap.stats.count cycle }
  return cycle

def finish (cycle : Cycle) : HeapM σ Unit := do
  modify fun heap =>
    { heap with
      previousHeapSize := max heap.heapSize heap.growth.minHeapSize
      collecting := false }
  log (.collectionFinished cycle.marked cycle.freed cycle.freedBytes cycle.weakrefsCleared
    (← get).heapSize (← get).threshold)

end Heap

end Reclaim
