import Reclaim.Heap.Basic

namespace Reclaim.Heap

variable {σ : Type} [RawMemory σ]

def request (size : Word) : HeapM σ (Except ChunkError Ref) :=
  modifyGet fun heap =>
    let (answer, host) := RawMemory.request size heap.host
    let heap := { heap with host }.record (.requested size answer)
    match answer with
    | .ok object => (answer, { heap with memory := heap.memory.clear object })
    | .error _ => (answer, heap)

def release (object : Ref) (size : Word) : HeapM σ Unit :=
  modify fun heap =>
    { heap with host := RawMemory.release object size heap.host }.record (.released object size)

def costOf (object : Ref) : HeapM σ Word :=
  check fun heap => heap.types.allocationCost heap.memory object

/-- Releases objects one after the other, each with its recomputed cost. If that fails for one, it
    and those before it are gone and `leave` says what becomes of the rest. -/
def releaseEach (leave : List Ref → Heap σ → Heap σ) : List Ref → HeapM σ Unit
  | [] => modify (leave [])
  | object :: rest => do
    let cost ← onFault (leave rest) (costOf object)
    release object cost
    releaseEach leave rest

def releaseAll : HeapM σ Unit := do
  releaseEach (fun rest heap => { heap with objects := rest.toArray }) (← get).objects.toList
  releaseEach (fun _ heap => { heap with external := #[] }) (← get).external.toList

/-- Releases every object without running a finalizer and forgets everything about them. The types,
    the scanners and the embedder's state are kept. -/
def reset : HeapM σ Unit := do
  if (← get).collecting then throw .resetDuringCollection
  releaseAll
  modify fun heap =>
    { heap with
      finalizers := #[]
      weakHolders := #[]
      roots := heap.roots.clear
      heapSize := 0
      previousHeapSize := heap.growth.initialHeapSize
      collecting := false
      stats := {} }

end Reclaim.Heap
