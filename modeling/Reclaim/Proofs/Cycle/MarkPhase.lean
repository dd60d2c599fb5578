import Reclaim.Cycle.Phases
import Reclaim.Proofs.Cycle.Schedule
import Reclaim.Proofs.Heap.Consistency

namespace Reclaim.Heap

variable {σ : Type}

structure MarkPhase (heap : Heap σ) (reachable : List Ref) (kept scheduled : List FinalizerEntry)
    (revived : List Ref) (after : Memory) : Prop where
  divides : Divides (heap.types.Reachable heap.memory) heap.rootObjects heap.finalizers.toList
    kept scheduled
  marked : heap.memory.Marked after (reachable ++ revived) (scheduled.map FinalizerEntry.object)
  nodup : (reachable ++ revived).Nodup
  reachable_iff : ∀ o, o ∈ reachable ↔ heap.types.Reachable heap.memory heap.rootObjects o
  retained_iff : ∀ o, o ∈ reachable ++ revived ↔ heap.Retained o

theorem exists_ran_rootObjects {heap : Heap σ} (consistent : heap.Consistent)
    (traceable : heap.Traceable) :
    ∃ reachable after,
      Walk.Ran heap.types { memory := heap.memory } heap.rootObjects.reverse reachable after ∧
      ∀ o, o ∈ reachable ↔ heap.types.Reachable heap.memory heap.rootObjects o := by
  have inside : ∀ o, heap.types.Reachable heap.memory heap.rootObjects.reverse o → o ∈ heap.live := by
    intro o reached
    refine reachable_live traceable ?_ reached
    intro s member
    exact rootObjects_live consistent traceable s (List.mem_reverse.mp member)
  have finds (o : Ref) : Walk.Finds heap.types heap.memory heap.rootObjects.reverse o ↔
      heap.types.Reachable heap.memory heap.rootObjects.reverse o ∧
        ¬ heap.types.Reachable heap.memory [] o := by
    change _ ↔ heap.types.Reachable heap.memory ([] ++ heap.rootObjects.reverse) o ∧ _
    apply Walk.finds_iff_reachable
    intro o reached
    rw [consistent.unmarked o (inside o reached)]
    exact iff_of_false Bool.false_ne_true TypeTable.not_reachable_nil
  obtain ⟨reachable, after, ran⟩ := Walk.exists_ran { memory := heap.memory }
    heap.rootObjects.reverse fun o found => by
      obtain ⟨children, reported, _⟩ := traceable.children_live o (inside o found.reachable)
      exact ⟨children, reported⟩
  refine ⟨reachable, after, ran, ?_⟩
  intro o
  rw [ran.mem_iff, finds, TypeTable.reachable_of_mem_iff fun _ => List.mem_reverse]
  exact and_iff_left TypeTable.not_reachable_nil

theorem partway_of_ran {heap : Heap σ} (consistent : heap.Consistent) (traceable : heap.Traceable)
    {reachable : List Ref} {middle : Memory}
    (ran : Walk.Ran heap.types { memory := heap.memory } heap.rootObjects.reverse reachable middle)
    (reachable_iff : ∀ o, o ∈ reachable ↔
      heap.types.Reachable heap.memory heap.rootObjects o) :
    Heap.Partway { heap with memory := middle } heap.rootObjects heap.finalizers.toList := by
  have same : heap.types.Reachable middle = heap.types.Reachable heap.memory := ran.marked.reachable
  have inside (o : Ref) (reached : heap.types.Reachable middle
      (heap.rootObjects ++ heap.finalizerObjects) o) : o ∈ heap.live := by
    rw [same] at reached
    exact reachable_live traceable (starts_live consistent traceable) reached
  constructor
  · intro o reached
    rw [ran.marked.isSurviving, consistent.unmarked o (inside o reached), Bool.or_false,
      decide_eq_true_eq, reachable_iff]
    simp only [same]
  · intro o reached
    obtain ⟨children, reported, _⟩ := traceable.children_live o (inside o reached)
    exact ⟨children, (ran.marked.children o).trans reported⟩
  · exact consistent.finalizers_nodup
  · intro o member
    rw [ran.marked.finalizerReachable, consistent.finalizers_pending o member]
    rfl

theorem exists_markAndSchedule {heap : Heap σ} (consistent : heap.Consistent)
    (traceable : heap.Traceable) :
    ∃ reachable kept scheduled revived after,
      markAndSchedule heap = .ok (reachable.length + revived.length, scheduled)
        { heap.marking after (schedulings scheduled ++
            [.logged (.markFinished reachable.length scheduled.length revived.length)]) with
          finalizers := kept.toArray } ∧
      heap.MarkPhase reachable kept scheduled revived after := by
  obtain ⟨reachable, middle, ran, reachable_iff⟩ := exists_ran_rootObjects consistent traceable
  have first := mark_eq_ok ran
  have same : heap.types.Reachable middle = heap.types.Reachable heap.memory := ran.marked.reachable
  have partway := partway_of_ran consistent traceable ran reachable_iff
  obtain ⟨kept, scheduled, revived, after, divided⟩ := exists_divided
    { heap with memory := middle } heap.rootObjects {} heap.finalizers.toList partway
  have late (o : Ref) : o ∈ revived ↔ heap.Retained o ∧ o ∉ reachable := by
    rw [divided.mem_iff, reachable_iff]
    simp only [same]
    rfl
  have divides := divided.divides
  simp only [same] at divides
  refine ⟨reachable, kept, scheduled, revived, after, ?_, ⟨divides, ?_, ?_, reachable_iff, ?_⟩⟩
  · have second : scheduleFinalizers { heap with memory := middle } =
        .ok (scheduled, revived.length)
          { heap.marking after (schedulings scheduled) with finalizers := kept.toArray } :=
      scheduleFinalizers_eq_ok divided
    rw [markAndSchedule, get_bind, bind_of_ok first, bind_of_ok second]
    dsimp only
    rw [bind_of_ok (log_eq_ok _), pure_apply]
    simp [marking, Heap.record]
  · simpa using ran.marked.trans divided.marked
  · refine List.nodup_append.mpr ⟨ran.nodup, divided.nodup, ?_⟩
    rintro o early _ member rfl
    exact ((late o).mp member).2 early
  · intro o
    rw [List.mem_append, late, reachable_iff]
    have sub : heap.types.Reachable heap.memory heap.rootObjects o → heap.Retained o :=
      fun h => h.append _
    tauto

end Reclaim.Heap
