import Reclaim.Proofs.Heap.SideBySide

namespace Reclaim.Heap

variable {σ : Type} {slots : SlotMap} {heap other : Heap σ}

theorem alike_vacant (slots : SlotMap) (growth : Growth) (types : TypeTable) (host host' : σ)
    (memory memory' : Memory) (scanners scanners' : Array (σ → List Ref))
    (journal journal' : Array Event) :
    Alike slots { growth, types, host, memory, scanners, journal }
      { growth, types, host := host', memory := memory', scanners := scanners',
        journal := journal' } where
  growth := rfl
  types := rfl
  heapSize := rfl
  previousHeapSize := rfl
  collecting := rfl
  stats := rfl
  objects := rfl
  external := rfl
  distinct := .nil
  distinct' := .nil
  twins := nofun
  finalizers := .nil
  weakHolders := .nil
  roots := .empty _

variable [RawMemory σ]

def renewed (heap : Heap σ) : Heap σ where
  growth := heap.growth
  types := heap.types
  host := heap.releasedHost heap.live
  memory := heap.memory
  scanners := heap.scanners
  journal := heap.journal ++ (heap.releasings heap.live).toArray

theorem reset_eq_ok (idle : heap.collecting = false)
    (sized : ∀ o ∈ heap.live, ∃ cost, heap.types.allocationCost heap.memory o = .ok cost) :
    reset heap = .ok () heap.renewed := by
  rw [reset, get_bind]
  simp only [idle, Bool.false_eq_true, if_false]
  rw [bind_of_ok (releaseAll_eq_ok heap sized)]
  rfl

theorem Alike.renewed (h : heap.Alike slots other) : heap.renewed.Alike slots other.renewed := by
  unfold Heap.renewed
  rw [h.growth, h.types]
  exact alike_vacant slots ..

end Reclaim.Heap
