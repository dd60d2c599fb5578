import Reclaim.Heap.Basic

namespace Reclaim.Heap

variable {σ : Type}

def weakOffsetOf (holder : Ref) (heap : Heap σ) : Except Fault Word := do
  let typeId := (heap.memory.header holder).typeId
  match (← heap.types.expect typeId).weakOffset with
  | some offset => .ok offset
  | none => .error (.noWeakSlot holder typeId)

def clearDeadTarget (holder : Ref) : HeapM σ Bool := do
  let offset ← check (weakOffsetOf holder)
  let memory := (← get).memory
  match memory.readRef holder offset with
  | none => return false
  | some target =>
    if memory.isSurviving target then return false
    else
      modify fun heap => { heap with memory := heap.memory.writeWord holder offset 0 }
      return true

def invalidateEach (kept : List Ref) (cleared : Nat) : List Ref → HeapM σ (List Ref × Nat)
  | [] => return (kept, cleared)
  | holder :: rest => do
    if (← get).memory.isSurviving holder then
      let emptied ←
        onFault (fun heap => { heap with weakHolders := (kept.reverse ++ holder :: rest).toArray })
          (clearDeadTarget holder)
      invalidateEach (holder :: kept) (cleared + emptied.toNat) rest
    else invalidateEach kept cleared rest

/-- Goes through the weak holders after all marking, while every header can still be read. A weak
    slot whose target was not reached is emptied; a holder that was not reached is about to be
    freed and is forgotten. Answers with the number of slots emptied. -/
def invalidateWeak : HeapM σ Nat := do
  let (kept, cleared) ← invalidateEach [] 0 (← get).weakHolders.toList
  modify fun heap => { heap with weakHolders := kept.reverse.toArray }
  return cleared

end Reclaim.Heap
