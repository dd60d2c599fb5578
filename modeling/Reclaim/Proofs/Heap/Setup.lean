import Reclaim.Cycle.Phases
import Reclaim.Proofs.Heap.Effects

namespace Reclaim.Heap

variable {σ α β : Type}

structure SameSetup (before after : Heap σ) : Prop where
  growth : after.growth = before.growth
  scanners : after.scanners = before.scanners

theorem SameSetup.refl (heap : Heap σ) : heap.SameSetup heap := ⟨rfl, rfl⟩

theorem SameSetup.trans {first second third : Heap σ} (h : first.SameSetup second)
    (h' : second.SameSetup third) : first.SameSetup third :=
  ⟨h'.growth.trans h.growth, h'.scanners.trans h.scanners⟩

def KeepsSetup (action : HeapM σ α) : Prop :=
  ∀ ⦃heap value after⦄, action heap = .ok value after → heap.SameSetup after

namespace KeepsSetup

theorem bind {action : HeapM σ α} {next : α → HeapM σ β} (first : KeepsSetup action)
    (rest : ∀ value, KeepsSetup (next value)) : KeepsSetup (action >>= next) := by
  intro heap value after run
  obtain ⟨answer, middle, ran, run⟩ := bind_eq_ok.mp run
  exact (first ran).trans (rest answer run)

theorem pure (value : α) : KeepsSetup (pure value : HeapM σ α) := by
  intro heap _ after run
  cases run
  exact .refl heap

theorem get : KeepsSetup (get : HeapM σ (Heap σ)) := by
  intro heap _ after run
  cases run
  exact .refl heap

theorem throw (fault : Fault) : KeepsSetup (throw fault : HeapM σ α) := by
  intro heap _ after run
  cases run

theorem modify {change : Heap σ → Heap σ} (same : ∀ heap, SameSetup heap (change heap)) :
    KeepsSetup (modify change) := by
  intro heap _ after run
  cases run
  exact same heap

theorem modifyGet {change : Heap σ → α × Heap σ} (same : ∀ heap, SameSetup heap (change heap).2) :
    KeepsSetup (modifyGet change) := by
  intro heap _ after run
  cases run
  exact same heap

theorem check (read : Heap σ → Except Fault α) : KeepsSetup (check read) := by
  intro heap _ after run
  obtain ⟨_, rfl⟩ := check_eq_ok.mp run
  exact .refl _

theorem onFault {action : HeapM σ α} (leave : Heap σ → Heap σ) (h : KeepsSetup action) :
    KeepsSetup (onFault leave action) := by
  intro heap value after run
  rw [Heap.onFault] at run
  split at run
  · rename_i ran
    cases run
    exact h ran
  · cases run

end KeepsSetup

theorem keepsSetup_finish (cycle : Cycle) : KeepsSetup (finish cycle : HeapM σ Unit) :=
  .bind (.modify fun _ => ⟨rfl, rfl⟩) fun _ => .bind .get fun _ => .modify fun _ => ⟨rfl, rfl⟩

theorem sameSetup_furnish (request : Request) (object : Ref) (heap : Heap σ) :
    heap.SameSetup (furnish request object heap) := by
  rw [furnish_eq]
  exact ⟨rfl, rfl⟩

theorem keepsSetup_enter (request : Request) (cost : Word) (object : Ref) :
    KeepsSetup (enter request cost object : HeapM σ Unit) := by
  unfold enter
  split
  · exact .modify fun _ => ⟨rfl, rfl⟩
  · exact .bind (.modify fun _ => ⟨rfl, rfl⟩) fun _ => .bind (.check _) fun _ =>
      .modify fun _ => ⟨rfl, rfl⟩

variable [RawMemory σ]

theorem keepsSetup_request (size : Word) :
    KeepsSetup (Heap.request size : HeapM σ (Except ChunkError Ref)) := by
  refine .modifyGet fun heap => ?_
  cases RawMemory.request size heap.host with
  | mk answer host => cases answer <;> exact ⟨rfl, rfl⟩

theorem keepsSetup_allocateNow (request : Request) (cost : Word) :
    KeepsSetup (allocateNow request cost : HeapM σ (Except AllocError Ref)) := by
  refine .bind (keepsSetup_request cost) fun answer => ?_
  cases answer with
  | error error => exact .pure _
  | ok object =>
    exact .bind (keepsSetup_enter request cost object) fun _ =>
      .bind (.modify (sameSetup_furnish request object)) fun _ => .pure _

theorem keepsSetup_releaseEach {leave : List Ref → Heap σ → Heap σ}
    (same : ∀ rest heap, SameSetup heap (leave rest heap)) (objects : List Ref) :
    KeepsSetup (releaseEach leave objects) := by
  induction objects with
  | nil => exact .modify (same [])
  | cons object rest ih =>
    exact .bind (.onFault _ (.check _)) fun _ => .bind (.modify fun _ => ⟨rfl, rfl⟩) fun _ => ih

theorem keepsSetup_releaseAll : KeepsSetup (releaseAll : HeapM σ Unit) := by
  refine .bind .get fun _ => .bind ?_ fun _ => .bind .get fun _ => ?_
  · apply keepsSetup_releaseEach
    exact fun _ _ => ⟨rfl, rfl⟩
  · apply keepsSetup_releaseEach
    exact fun _ _ => ⟨rfl, rfl⟩

theorem keepsSetup_reset : KeepsSetup (reset : HeapM σ Unit) := by
  have all : KeepsSetup (releaseAll : HeapM σ Unit) := keepsSetup_releaseAll
  refine .bind .get fun heap => ?_
  split
  · exact .bind (.throw _) fun _ => .bind all fun _ => .modify fun _ => ⟨rfl, rfl⟩
  · exact .bind all fun _ => .modify fun _ => ⟨rfl, rfl⟩

end Reclaim.Heap
