import Mathlib.Algebra.GroupWithZero.Nat
import Reclaim.Heap.Basic
import Reclaim.Proofs.Cycle.Reachability

namespace Reclaim.Heap

variable {σ : Type}

def live (heap : Heap σ) : List Ref :=
  heap.objects.toList ++ heap.external.toList

def cost (heap : Heap σ) (object : Ref) : Word :=
  heap.types.cost heap.memory object

def bytes (heap : Heap σ) (objects : List Ref) : Nat :=
  (objects.map fun object => (heap.cost object).toNat).sum

theorem bytes_cons (heap : Heap σ) (object : Ref) (rest : List Ref) :
    heap.bytes (object :: rest) = (heap.cost object).toNat + heap.bytes rest := by
  simp only [bytes, List.map_cons, List.sum_cons]

def finalizerObjects (heap : Heap σ) : List Ref :=
  heap.finalizers.toList.map FinalizerEntry.object

/-- The registries agree with each other and with the headers of the live objects. -/
structure Consistent (heap : Heap σ) : Prop where
  types_valid : heap.types.Valid
  live_nodup : heap.live.Nodup
  unmarked : ∀ o ∈ heap.live, heap.memory.isSurviving o = false
  sized : ∀ o ∈ heap.live, ∃ cost, heap.types.allocationCost heap.memory o = .ok cost
  heapSize : heap.heapSize.toNat = heap.bytes heap.objects.toList
  finalizers_nodup : heap.finalizerObjects.Nodup
  finalizers_mem : ∀ o ∈ heap.finalizerObjects, o ∈ heap.objects.toList
  finalizers_pending : ∀ o ∈ heap.finalizerObjects,
    (heap.memory.flags o).contains .finalizerReachable = false
  weak_nodup : heap.weakHolders.toList.Nodup
  weak_iff : ∀ o, o ∈ heap.weakHolders.toList ↔
    o ∈ heap.live ∧ (heap.types.weakSlot? heap.memory o).isSome
  roots_live : ∀ o ∈ heap.roots.objects, o ∈ heap.live

/-- What a collection relies on: types and scanners report live objects only, and no trace gives
    up. -/
structure Traceable (heap : Heap σ) : Prop where
  scanners_live : ∀ scan ∈ heap.scanners.toList, ∀ o ∈ scan heap.host, o ∈ heap.live
  children_live : ∀ o ∈ heap.live, ∃ children,
    heap.types.children heap.memory o = .ok children ∧ ∀ c ∈ children, c ∈ heap.live

/-- What a collection keeps: the objects reached from the roots and from the objects of all pending
    finalizers. -/
def Retained (heap : Heap σ) (object : Ref) : Prop :=
  heap.types.Reachable heap.memory (heap.rootObjects ++ heap.finalizerObjects) object

theorem mem_live_of_objects {heap : Heap σ} {object : Ref} (h : object ∈ heap.objects.toList) :
    object ∈ heap.live :=
  List.mem_append_left _ h

theorem mem_live_of_external {heap : Heap σ} {object : Ref} (h : object ∈ heap.external.toList) :
    object ∈ heap.live :=
  List.mem_append_right _ h

section

variable {heap : Heap σ} (consistent : heap.Consistent) (traceable : heap.Traceable)

include traceable

theorem reachable_live {starts : List Ref} (starting : ∀ o ∈ starts, o ∈ heap.live) {object : Ref}
    (h : heap.types.Reachable heap.memory starts object) : object ∈ heap.live := by
  have closed : heap.types.Closed heap.memory heap.live := traceable.children_live
  exact closed.mem_of_reachable starting h

include consistent

theorem rootObjects_live : ∀ o ∈ heap.rootObjects, o ∈ heap.live := by
  intro o member
  simp only [rootObjects, List.mem_append, List.mem_flatMap] at member
  rcases member with (root | ⟨scan, scanner, listed⟩) | external
  · exact consistent.roots_live o root
  · exact traceable.scanners_live scan scanner o listed
  · exact mem_live_of_external external

theorem starts_live : ∀ o ∈ heap.rootObjects ++ heap.finalizerObjects, o ∈ heap.live := by
  intro o member
  rcases List.mem_append.mp member with root | pending
  · exact rootObjects_live consistent traceable o root
  · exact mem_live_of_objects (consistent.finalizers_mem o pending)

theorem Retained.live {object : Ref} (h : heap.Retained object) : object ∈ heap.live :=
  reachable_live traceable (starts_live consistent traceable) h

end

theorem retained_of_external {heap : Heap σ} {object : Ref}
    (h : object ∈ heap.external.toList) : heap.Retained object := by
  apply TypeTable.Reachable.start
  simp only [rootObjects, List.mem_append]
  exact .inl (.inr h)

theorem retained_of_finalizer {heap : Heap σ} {object : Ref} (h : object ∈ heap.finalizerObjects) :
    heap.Retained object :=
  .start (List.mem_append_right _ h)

theorem retained_of_root {heap : Heap σ} {object : Ref} (h : object ∈ heap.roots.objects) :
    heap.Retained object := by
  apply TypeTable.Reachable.start
  simp only [rootObjects, List.mem_append]
  exact .inl (.inl (.inl h))

end Reclaim.Heap
