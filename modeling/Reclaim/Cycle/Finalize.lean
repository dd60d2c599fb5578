import Reclaim.Cycle.Mark

namespace Reclaim

structure Partition where
  kept : List FinalizerEntry := []
  scheduled : List FinalizerEntry := []
  revived : Nat := 0

namespace Heap

variable {σ : Type}

/-- Consumes the entry of an unreachable object and keeps alive what the object reaches. Answers
    with the objects marked. -/
def revive (entry : FinalizerEntry) : HeapM σ (List Ref) := do
  if ((← get).memory.flags entry.object).contains .finalizerReachable then
    throw (.scheduledTwice entry.object)
  modify fun heap =>
    { heap with memory := heap.memory.addFlag entry.object .finalizerReachable }
  log (.schedulingFinalizer entry)
  mark [entry.object]

/-- Divides entries in their order. A fault loses the entries that were already looked at. -/
def divide (part : Partition) : List FinalizerEntry → HeapM σ Partition
  | [] => return part
  | entry :: rest => do
    if (← get).memory.isSurviving entry.object then
      divide { part with kept := entry :: part.kept } rest
    else
      let marked ← onFault (fun heap => { heap with finalizers := rest.toArray }) (revive entry)
      divide
        { part with
          scheduled := entry :: part.scheduled
          revived := part.revived + marked.length }
        rest

def scheduleFinalizers : HeapM σ (List FinalizerEntry × Nat) := do
  let part ← divide {} (← get).finalizers.toList
  modify fun heap => { heap with finalizers := part.kept.reverse.toArray }
  return (part.scheduled.reverse, part.revived)

end Heap

end Reclaim
