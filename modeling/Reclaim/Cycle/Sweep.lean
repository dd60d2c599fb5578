import Reclaim.Heap.Release

namespace Reclaim

structure Sweep where
  survivors : List Ref := []
  freed : Nat := 0
  freedBytes : Nat := 0

namespace Heap

variable {σ : Type} [RawMemory σ]

def discharge (object : Ref) : HeapM σ Word := do
  let cost ← costOf object
  let heapSize := (← get).heapSize
  match Word.sub? heapSize cost with
  | none => throw (.heapSizeUnderflow cost heapSize)
  | some remaining =>
    modify fun heap => { heap with heapSize := remaining }
    return cost

def clearMark (object : Ref) (heap : Heap σ) : Heap σ :=
  { heap with memory := heap.memory.removeFlag object .surviving }

/-- Sweeps objects in their order. A fault loses the objects up to the one that it arises for. -/
def sweepEach (sweep : Sweep) : List Ref → HeapM σ Sweep
  | [] => return sweep
  | object :: rest => do
    if (← get).memory.isSurviving object then
      modify (clearMark object)
      sweepEach { sweep with survivors := object :: sweep.survivors } rest
    else
      let cost ← onFault (fun heap => { heap with objects := rest.toArray }) (discharge object)
      release object cost
      sweepEach
        { sweep with
          freed := sweep.freed + 1
          freedBytes := sweep.freedBytes + cost.toNat }
        rest

/-- Sweeps the registry. External objects are never freed, but they are marked like all others, so
    their marks are taken off too. -/
def sweep : HeapM σ Sweep := do
  let sweep ← sweepEach {} (← get).objects.toList
  modify fun heap => { heap with objects := sweep.survivors.reverse.toArray }
  modify fun heap => heap.external.foldl (fun heap object => heap.clearMark object) heap
  return sweep

end Heap

end Reclaim
