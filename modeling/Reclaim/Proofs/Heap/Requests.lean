import Reclaim.Cycle.Phases
import Reclaim.Proofs.Heap.Actions

namespace Reclaim

def Event.asked? : Event → Option Word
  | .requested size _ => some size
  | _ => none

namespace Heap

variable {σ : Type}

def asked (heap : Heap σ) : List Word :=
  heap.journal.toList.filterMap Event.asked?

theorem asked_record (heap : Heap σ) (event : Event) :
    (heap.record event).asked = heap.asked ++ event.asked?.toList := by
  rw [asked, asked, record, Array.toList_push, List.filterMap_append]
  cases asks : event.asked? <;> simp [asks]

theorem asked_record_of_none {event : Event} (silent : event.asked? = none) (heap : Heap σ) :
    (heap.record event).asked = heap.asked := by
  rw [asked_record, silent, Option.toList_none, List.append_nil]

/-- Observations that a collection leaves alone from its mark phase to its sweep: they see neither
    objects and registries nor the state of the embedder, and of the journal requests only. -/
structure Lasting {γ : Type} (observe : Heap σ → γ) : Prop where
  records : ∀ heap event, Event.asked? event = none → observe (heap.record event) = observe heap
  settles : ∀ (heap : Heap σ) host memory objects finalizers weakHolders heapSize,
    observe { heap with host, memory, objects, finalizers, weakHolders, heapSize } = observe heap

theorem lasting_asked : Lasting (asked : Heap σ → List Word) where
  records := fun heap _ silent => asked_record_of_none silent heap
  settles := fun _ _ _ _ _ _ _ => rfl

theorem lasting_stats : Lasting fun heap : Heap σ => (heap.types, heap.collecting, heap.stats) where
  records := fun _ _ _ => rfl
  settles := fun _ _ _ _ _ _ _ => rfl

namespace Lasting

variable {γ : Type} {observe : Heap σ → γ} (lasting : Lasting observe)

include lasting

theorem log (entry : LogRecord) : Keeps observe (log entry : HeapM σ Unit) :=
  .modify fun heap => lasting.records heap _ rfl

section Marking

theorem mark (objects : List Ref) : Keeps observe (mark objects : HeapM σ (List Ref)) := by
  intro heap found after run
  rw [Heap.mark] at run
  split at run
  · cases run
    exact lasting.settles _ _ _ _ _ _ _
  · cases run

theorem revive (entry : FinalizerEntry) : Keeps observe (revive entry : HeapM σ (List Ref)) := by
  have marks : Keeps observe (do
      modify fun heap : Heap σ =>
        { heap with memory := heap.memory.addFlag entry.object .finalizerReachable }
      Heap.log (.schedulingFinalizer entry)
      Heap.mark [entry.object] : HeapM σ (List Ref)) :=
    .bind (.modify fun _ => lasting.settles _ _ _ _ _ _ _) fun _ =>
      .bind (lasting.log _) fun _ => lasting.mark _
  refine .bind .get fun heap => ?_
  split
  · exact .bind (.throw _) fun _ => marks
  · exact marks

theorem divide (part : Partition) (entries : List FinalizerEntry) :
    Keeps observe (divide part entries : HeapM σ Partition) := by
  induction entries generalizing part with
  | nil => exact .pure part
  | cons entry rest ih =>
    refine .bind .get fun heap => ?_
    split
    · exact ih _
    · exact .bind (keeps_onFault _ (lasting.revive entry)) fun _ => ih _

theorem markAndSchedule :
    Keeps observe (markAndSchedule : HeapM σ (Nat × List FinalizerEntry)) := by
  have schedules : Keeps observe (scheduleFinalizers : HeapM σ (List FinalizerEntry × Nat)) :=
    .bind .get fun _ => .bind (lasting.divide _ _) fun _ =>
      .bind (.modify fun _ => lasting.settles _ _ _ _ _ _ _) fun _ => .pure _
  exact .bind .get fun _ => .bind (lasting.mark _) fun _ => .bind schedules fun _ =>
    .bind (lasting.log _) fun _ => .pure _

end Marking

section Weak

theorem clearDeadTarget (holder : Ref) :
    Keeps observe (clearDeadTarget holder : HeapM σ Bool) := by
  refine .bind (keeps_check _) fun offset => .bind .get fun heap => ?_
  dsimp only
  split
  · exact .pure false
  · split
    · exact .pure false
    · exact .bind (.modify fun _ => lasting.settles _ _ _ _ _ _ _) fun _ => .pure true

theorem invalidateEach (kept : List Ref) (cleared : Nat) (holders : List Ref) :
    Keeps observe (invalidateEach kept cleared holders : HeapM σ (List Ref × Nat)) := by
  induction holders generalizing kept cleared with
  | nil => exact .pure _
  | cons holder rest ih =>
    refine .bind .get fun heap => ?_
    split
    · exact .bind (keeps_onFault _ (lasting.clearDeadTarget holder)) fun _ => ih _ _
    · exact ih _ _

theorem invalidateWeak : Keeps observe (invalidateWeak : HeapM σ Nat) :=
  .bind .get fun _ => .bind (lasting.invalidateEach _ _ _) fun _ =>
    .bind (.modify fun _ => lasting.settles _ _ _ _ _ _ _) fun _ => .pure _

end Weak

section Sweeping

theorem clearMark (object : Ref) (heap : Heap σ) : observe (heap.clearMark object) = observe heap :=
  lasting.settles _ _ _ _ _ _ _

theorem clearMarks (objects : List Ref) (heap : Heap σ) :
    observe (objects.foldl (fun heap object => heap.clearMark object) heap) = observe heap := by
  induction objects generalizing heap with
  | nil => rfl
  | cons object rest ih => exact (ih (heap.clearMark object)).trans (lasting.clearMark object heap)

theorem discharge (object : Ref) : Keeps observe (discharge object : HeapM σ Word) := by
  refine .bind (keeps_check _) fun cost => .bind .get fun heap => ?_
  dsimp only
  split
  · exact .throw _
  · exact .bind (.modify fun _ => lasting.settles _ _ _ _ _ _ _) fun _ => .pure cost

variable [RawMemory σ]

theorem release (object : Ref) (size : Word) :
    Keeps observe (release object size : HeapM σ Unit) :=
  .modify fun _ => (lasting.records _ _ rfl).trans (lasting.settles _ _ _ _ _ _ _)

theorem sweepEach (sweep : Sweep) (objects : List Ref) :
    Keeps observe (sweepEach sweep objects : HeapM σ Sweep) := by
  induction objects generalizing sweep with
  | nil => exact .pure sweep
  | cons object rest ih =>
    refine .bind .get fun heap => ?_
    split
    · exact .bind (.modify (lasting.clearMark object)) fun _ => ih _
    · exact .bind (keeps_onFault _ (lasting.discharge object)) fun cost =>
        .bind (lasting.release object cost) fun _ => ih _

theorem sweep : Keeps observe (sweep : HeapM σ Sweep) := by
  refine .bind .get fun _ => .bind (lasting.sweepEach _ _) fun _ =>
    .bind (.modify fun _ => lasting.settles _ _ _ _ _ _ _) fun _ =>
      .bind (.modify fun heap => ?_) fun _ => .pure _
  rw [← Array.foldl_toList]
  exact lasting.clearMarks heap.external.toList heap

end Sweeping

end Lasting

theorem keeps_asked_finish (cycle : Cycle) : Keeps asked (finish cycle : HeapM σ Unit) :=
  .bind (.modify fun _ => rfl) fun _ => .bind .get fun _ => .bind .get fun _ => lasting_asked.log _

variable [RawMemory σ]

theorem keeps_asked_reclaim : Keeps asked (reclaim : HeapM σ Cycle) :=
  .bind (.modify fun _ => rfl) fun _ => .bind .get fun _ => .bind .get fun _ =>
    .bind (lasting_asked.log _) fun _ => .bind (keeps_check _) fun _ =>
      .bind lasting_asked.markAndSchedule fun _ => .bind lasting_asked.invalidateWeak fun _ =>
        .bind lasting_asked.sweep fun _ => .bind (.modify fun _ => rfl) fun _ => .pure _

theorem stats_of_reclaim {heap after : Heap σ} {cycle : Cycle}
    (run : reclaim heap = .ok cycle after) :
    after.types = heap.types ∧ after.collecting = true ∧ after.stats = heap.stats.count cycle := by
  rw [reclaim, modify_bind, get_bind, get_bind] at run
  obtain ⟨_, logged, logging, run⟩ := bind_eq_ok.mp run
  obtain ⟨_, checked, checking, run⟩ := bind_eq_ok.mp run
  obtain ⟨_, marked, marking, run⟩ := bind_eq_ok.mp run
  obtain ⟨_, invalidated, invalidating, run⟩ := bind_eq_ok.mp run
  obtain ⟨_, swept, sweeping, finished⟩ := bind_eq_ok.mp run
  have started : (logged.types, logged.collecting, logged.stats) = (heap.types, true, heap.stats) := by
    cases logging
    rfl
  obtain ⟨_, rfl⟩ := check_eq_ok.mp checking
  have kept := (lasting_stats.sweep sweeping).trans <|
    (lasting_stats.invalidateWeak invalidating).trans (lasting_stats.markAndSchedule marking)
  obtain ⟨types, kept⟩ := Prod.mk.inj (kept.trans started)
  obtain ⟨collecting, stats⟩ := Prod.mk.inj kept
  cases finished
  exact ⟨types, collecting, congrArg (fun stats => Stats.count stats _) stats⟩

end Heap

end Reclaim
