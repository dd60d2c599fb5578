import Reclaim.Heap.Release
import Reclaim.Proofs.Heap.Actions
import Reclaim.Proofs.Heap.Consistency

namespace Reclaim.Heap

variable {σ : Type}

theorem cost_eq_of_ok {heap : Heap σ} {object : Ref} {cost : Word}
    (known : heap.types.allocationCost heap.memory object = .ok cost) : heap.cost object = cost :=
  TypeTable.cost_of_ok known

theorem costOf_eq_ok {heap : Heap σ} {object : Ref} {cost : Word}
    (known : heap.types.allocationCost heap.memory object = .ok cost) :
    costOf object heap = .ok cost heap :=
  check_of_ok known

variable [RawMemory σ]

def releasings (heap : Heap σ) (objects : List Ref) : List Event :=
  objects.map fun object => .released object (heap.cost object)

def releasedHost (heap : Heap σ) (objects : List Ref) : σ :=
  objects.foldl (fun host object => RawMemory.release object (heap.cost object) host) heap.host

def releasing (heap : Heap σ) (objects : List Ref) : Heap σ :=
  { heap with
    host := heap.releasedHost objects
    journal := heap.journal ++ (heap.releasings objects).toArray }

theorem release_eq_ok (heap : Heap σ) (object : Ref) :
    release object (heap.cost object) heap = .ok () (heap.releasing [object]) := by
  rw [release, modify_apply]
  simp [record, releasing, releasedHost, releasings]

theorem releasing_nil (heap : Heap σ) : heap.releasing [] = heap := by
  simp [releasing, releasedHost, releasings]

theorem releasing_cons (heap : Heap σ) (object : Ref) (rest : List Ref) :
    (heap.releasing [object]).releasing rest = heap.releasing (object :: rest) := by
  simp [releasing, releasedHost, releasings, cost]

theorem releaseEach_eq_ok (leave : List Ref → Heap σ → Heap σ) (heap : Heap σ) (objects : List Ref)
    (sized : ∀ o ∈ objects, ∃ cost, heap.types.allocationCost heap.memory o = .ok cost) :
    releaseEach leave objects heap = .ok () (leave [] (heap.releasing objects)) := by
  induction objects generalizing heap with
  | nil =>
    rw [releasing_nil]
    rfl
  | cons object rest ih =>
    obtain ⟨cost, known⟩ := sized object List.mem_cons_self
    have same := cost_eq_of_ok known
    subst same
    have released := ih (heap.releasing [object]) fun o member =>
      sized o (List.mem_cons_of_mem _ member)
    rw [releaseEach, bind_of_ok (onFault_of_ok (costOf_eq_ok known)),
      bind_of_ok (release_eq_ok heap object), released, releasing_cons]

theorem releaseAll_eq_ok (heap : Heap σ)
    (sized : ∀ o ∈ heap.live, ∃ cost, heap.types.allocationCost heap.memory o = .ok cost) :
    releaseAll heap =
      .ok () { heap.releasing heap.live with objects := #[], external := #[] } := by
  have first := releaseEach_eq_ok (fun rest heap => { heap with objects := rest.toArray }) heap
    heap.objects.toList fun o member => sized o (mem_live_of_objects member)
  have second := releaseEach_eq_ok (fun _ heap => { heap with external := #[] })
    { heap.releasing heap.objects.toList with objects := #[] } heap.external.toList
    fun o member => sized o (mem_live_of_external member)
  rw [releaseAll, get_bind, bind_of_ok first, get_bind]
  refine second.trans ?_
  simp [releasing, releasedHost, releasings, live, cost]

end Reclaim.Heap
