import Reclaim.Proofs.Cycle.MarkPhase
import Reclaim.Proofs.Cycle.Sweeping
import Reclaim.Proofs.Cycle.WeakSlots

namespace Reclaim

theorem Memory.headerWord_of_unmarked {types : TypeTable} {first marked emptied last : Memory}
    {found due slots cleared : List Ref} (marking : first.Marked marked found due)
    (emptying : marked.Emptied types emptied slots) (clearing : emptied.Unmarked last cleared)
    (same : ∀ o, o ∈ cleared ↔ o ∈ found) (fresh : ∀ o ∈ found, first.isSurviving o = false)
    (o : Ref) :
    last.headerWord o =
      first.headerWord o ||| (if o ∈ due then Flags.finalizerReachable.mask else 0) := by
  rw [clearing.headerWord, emptying.headerWord, marking.headerWord]
  by_cases member : o ∈ found
  · rw [if_pos ((same o).mpr member), if_pos member, Flags.surviving_eq_single]
    apply Header.or_mask_and_not_mask (by decide)
    have unmarked := fresh o member
    rw [isSurviving, flags, header, Flags.surviving_eq_single] at unmarked
    split
    · rw [Flags.finalizerReachable_eq_single, Header.contains_single_or_mask _ (by decide), unmarked]
      rfl
    · rw [UInt64.or_zero]
      exact unmarked
  · rw [if_neg (fun h => member ((same o).mp h)), if_neg member, UInt64.or_zero]

end Reclaim

namespace Reclaim.Heap

variable {σ : Type}

open Classical in
noncomputable def reached (heap : Heap σ) : List Ref :=
  heap.objects.toList.filter fun o => heap.Retained o

open Classical in
noncomputable def unreached (heap : Heap σ) : List Ref :=
  heap.objects.toList.filter fun o => ¬ heap.Retained o

open Classical in
noncomputable def rooted (heap : Heap σ) : List Ref :=
  heap.live.filter fun o => heap.types.Reachable heap.memory heap.rootObjects o

open Classical in
/-- The objects whose weak slots a collection empties: they are kept and their targets are not. -/
noncomputable def bereft (heap : Heap σ) : List Ref :=
  heap.weakHolders.toList.filter fun o => heap.Retained o ∧
    ∃ target, heap.types.weakTarget? heap.memory o = some target ∧
      ¬ heap.Retained target ∧ heap.memory.isSurviving target = false

theorem mem_reached {heap : Heap σ} {o : Ref} :
    o ∈ heap.reached ↔ o ∈ heap.objects.toList ∧ heap.Retained o := by
  simp only [reached, List.mem_filter, decide_eq_true_eq]

theorem mem_unreached {heap : Heap σ} {o : Ref} :
    o ∈ heap.unreached ↔ o ∈ heap.objects.toList ∧ ¬ heap.Retained o := by
  simp only [unreached, List.mem_filter, decide_eq_true_eq]

theorem reached_sublist (heap : Heap σ) : heap.reached.Sublist heap.objects.toList :=
  List.filter_sublist

theorem unreached_sublist (heap : Heap σ) : heap.unreached.Sublist heap.objects.toList :=
  List.filter_sublist

theorem mem_bereft {heap : Heap σ} {o : Ref} :
    o ∈ heap.bereft ↔ o ∈ heap.weakHolders.toList ∧ heap.Retained o ∧
      ∃ target, heap.types.weakTarget? heap.memory o = some target ∧
        ¬ heap.Retained target ∧ heap.memory.isSurviving target = false := by
  simp only [bereft, List.mem_filter, decide_eq_true_eq]

theorem bytes_filter (heap : Heap σ) (p : Ref → Bool) (objects : List Ref) :
    heap.bytes (objects.filter p) + heap.bytes (objects.filter fun o => ! p o) =
      heap.bytes objects := by
  induction objects with
  | nil => rfl
  | cons object rest ih =>
    cases keep : p object with
    | true =>
      rw [List.filter_cons_of_pos keep, List.filter_cons_of_neg (by simp [keep]), bytes_cons,
        bytes_cons]
      omega
    | false =>
      rw [List.filter_cons_of_neg (by simp [keep]), List.filter_cons_of_pos (by simp [keep]),
        bytes_cons, bytes_cons]
      omega

theorem bytes_reached_unreached (heap : Heap σ) :
    heap.bytes heap.reached + heap.bytes heap.unreached = heap.bytes heap.objects.toList := by
  classical
  have split := heap.bytes_filter (fun o => decide (heap.Retained o)) heap.objects.toList
  simpa only [reached, unreached, decide_not] using split

variable [RawMemory σ]

/-- What a collection has done to a heap when its sweep is over. -/
structure Reclaimed (before : Heap σ) (cycle : Cycle) (after : Heap σ) : Prop where
  types : after.types = before.types
  growth : after.growth = before.growth
  external : after.external = before.external
  roots : after.roots = before.roots
  scanners : after.scanners = before.scanners
  previousHeapSize : after.previousHeapSize = before.previousHeapSize
  collecting : after.collecting = true
  objects : after.objects.toList = before.reached
  host : after.host = before.releasedHost before.unreached
  heapSize : before.heapSize.toNat = before.bytes before.unreached + after.heapSize.toNat
  stats : after.stats = before.stats.count cycle
  divides : Divides (before.types.Reachable before.memory) before.rootObjects
    before.finalizers.toList after.finalizers.toList cycle.scheduled
  headerWord : ∀ o, after.memory.headerWord o = before.memory.headerWord o |||
    (if o ∈ cycle.scheduled.map FinalizerEntry.object then Flags.finalizerReachable.mask else 0)
  payload_kept : ∀ o, o ∉ before.bereft → after.memory.payload o = before.memory.payload o
  payload_bereft : ∀ o ∈ before.bereft, ∃ slot,
    before.types.weakSlot? before.memory o = some slot ∧
      after.memory.payload o = (before.memory.payload o).writeWord slot.toNat 0
  weakHolders : ∀ o, o ∈ after.weakHolders.toList ↔
    o ∈ before.weakHolders.toList ∧ before.Retained o
  weakHolders_sublist : after.weakHolders.toList.Sublist before.weakHolders.toList
  journal : after.journal.toList = before.journal.toList ++
    (.logged (.collectionStarted before.heapSize before.objects.size) ::
      schedulings cycle.scheduled ++
      [.logged (.markFinished before.rooted.length cycle.scheduled.length
        (cycle.marked - before.rooted.length))] ++
      before.releasings before.unreached)
  marked : cycle.marked = before.reached.length + before.external.size
  weakrefsCleared : cycle.weakrefsCleared = before.bereft.length
  freed : cycle.freed = before.unreached.length
  freedBytes : cycle.freedBytes = before.bytes before.unreached

omit [RawMemory σ] in
theorem checkUnmarked_eq_ok {heap : Heap σ}
    (unmarked : ∀ o ∈ heap.live, heap.memory.isSurviving o = false) :
    checkUnmarked heap = .ok () := by
  have none : (heap.objects ++ heap.external).find? heap.memory.isSurviving = none := by
    rw [Array.find?_eq_none]
    intro o member
    rw [unmarked o (by simpa [live] using member)]
    exact Bool.false_ne_true
  rw [checkUnmarked, none]

def started (heap : Heap σ) : Heap σ :=
  { heap with collecting := true }.record
    (.logged (.collectionStarted heap.heapSize heap.objects.size))

omit [RawMemory σ] in
theorem started_consistent {heap : Heap σ} (consistent : heap.Consistent) :
    heap.started.Consistent :=
  { consistent with }

omit [RawMemory σ] in
theorem mem_reached_append_external {heap : Heap σ} (consistent : heap.Consistent)
    (traceable : heap.Traceable) {o : Ref} :
    o ∈ heap.reached ++ heap.external.toList ↔ heap.Retained o := by
  rw [List.mem_append, mem_reached]
  constructor
  · rintro (⟨_, retained⟩ | member)
    · exact retained
    · exact retained_of_external member
  · intro retained
    rcases List.mem_append.mp (retained.live consistent traceable) with member | member
    · exact .inl ⟨member, retained⟩
    · exact .inr member

omit [RawMemory σ] in
theorem started_traceable {heap : Heap σ} (traceable : heap.Traceable) : heap.started.Traceable :=
  { traceable with }

section

variable {heap : Heap σ} {reachable revived : List Ref} {kept scheduled : List FinalizerEntry}
  {marked : Memory} (phase : heap.MarkPhase reachable kept scheduled revived marked)

include phase

omit [RawMemory σ] in
theorem MarkPhase.isSurviving_iff {o : Ref} (unmarked : heap.memory.isSurviving o = false) :
    marked.isSurviving o = true ↔ heap.Retained o := by
  rw [phase.marked.isSurviving, unmarked, Bool.or_false, decide_eq_true_eq, phase.retained_iff]

omit [RawMemory σ] in
theorem MarkPhase.filter_surviving (consistent : heap.Consistent) :
    heap.objects.toList.filter marked.isSurviving = heap.reached := by
  classical
  apply List.filter_congr
  intro o member
  rw [Bool.eq_iff_iff, decide_eq_true_eq]
  exact phase.isSurviving_iff (consistent.unmarked o (mem_live_of_objects member))

omit [RawMemory σ] in
theorem MarkPhase.filter_dead (consistent : heap.Consistent) :
    heap.objects.toList.filter (fun o => ! marked.isSurviving o) = heap.unreached := by
  classical
  apply List.filter_congr
  intro o member
  have surviving := phase.isSurviving_iff (consistent.unmarked o (mem_live_of_objects member))
  rw [Bool.eq_iff_iff, decide_eq_true_eq, Bool.not_eq_true', ← Bool.not_eq_true, surviving]

omit [RawMemory σ] in
theorem MarkPhase.filter_losesTarget (consistent : heap.Consistent) :
    heap.weakHolders.toList.filter (heap.types.losesTarget marked) = heap.bereft := by
  classical
  apply List.filter_congr
  intro o member
  have live := ((consistent.weak_iff o).mp member).1
  have surviving := phase.isSurviving_iff (consistent.unmarked o live)
  have target : heap.types.weakTarget? marked o = heap.types.weakTarget? heap.memory o :=
    TypeTable.weakTarget?_congr (phase.marked.typeId o) (phase.marked.payload o)
  rw [Bool.eq_iff_iff, decide_eq_true_eq, TypeTable.losesTarget, Bool.and_eq_true, surviving,
    target, Option.any_eq_true]
  refine and_congr_right fun _ => exists_congr fun t => and_congr_right fun _ => ?_
  rw [Bool.not_eq_true', phase.marked.isSurviving, Bool.or_eq_false_iff, decide_eq_false_iff_not,
    phase.retained_iff]

omit [RawMemory σ] in
theorem MarkPhase.length_reachable (consistent : heap.Consistent) (traceable : heap.Traceable) :
    reachable.length = heap.rooted.length := by
  classical
  apply List.Perm.length_eq
  have nodup : heap.rooted.Nodup := consistent.live_nodup.filter _
  rw [List.perm_ext_iff_of_nodup (List.nodup_append.mp phase.nodup).1 nodup]
  intro o
  rw [phase.reachable_iff, rooted, List.mem_filter, decide_eq_true_eq]
  refine ⟨fun reached => ⟨?_, reached⟩, And.right⟩
  exact reachable_live traceable (rootObjects_live consistent traceable) reached

omit [RawMemory σ] in
theorem MarkPhase.length_marked (consistent : heap.Consistent) (traceable : heap.Traceable) :
    reachable.length + revived.length = heap.reached.length + heap.external.size := by
  rw [← List.length_append, ← Array.length_toList, ← List.length_append]
  apply List.Perm.length_eq
  have live_nodup := List.nodup_append.mp consistent.live_nodup
  rw [List.perm_ext_iff_of_nodup phase.nodup]
  · intro o
    exact (phase.retained_iff o).trans (mem_reached_append_external consistent traceable).symm
  · refine List.nodup_append.mpr ⟨live_nodup.1.sublist heap.reached_sublist, live_nodup.2.1, ?_⟩
    intro a left b right
    exact live_nodup.2.2 a (heap.reached_sublist.subset left) b right

end

omit [RawMemory σ] in
theorem bytes_of_cost {before after : Heap σ} (same : after.cost = before.cost) :
    after.bytes = before.bytes := by
  funext objects
  rw [bytes, bytes, same]

def withMarks (heap : Heap σ) (memory : Memory) (kept scheduled : List FinalizerEntry)
    (reachable revived : Nat) : Heap σ :=
  { heap.started.marking memory (schedulings scheduled ++
      [.logged (.markFinished reachable scheduled.length revived)]) with
    finalizers := kept.toArray }

def withSlots (heap : Heap σ) (marked memory : Memory) : Heap σ :=
  { heap with
    memory
    weakHolders := (heap.weakHolders.toList.filter marked.isSurviving).toArray }

noncomputable def swept (heap : Heap σ) (ready : Heap σ) (memory : Memory) (heapSize : Word) :
    Heap σ :=
  { ready.freeing heap.unreached memory heapSize with objects := heap.reached.toArray }

section

variable {heap : Heap σ} {reachable revived : List Ref} {kept scheduled : List FinalizerEntry}
  {marked : Memory} (phase : heap.MarkPhase reachable kept scheduled revived marked)
  (consistent : heap.Consistent)

include phase consistent

omit [RawMemory σ] in
theorem MarkPhase.exists_emptied :
    ∃ emptied,
      invalidateWeak
          (heap.withMarks marked kept scheduled reachable.length revived.length) =
        .ok heap.bereft.length
          ((heap.withMarks marked kept scheduled reachable.length revived.length).withSlots
            marked emptied) ∧
      marked.Emptied heap.types emptied heap.bereft := by
  have holders : ∀ o ∈ heap.weakHolders.toList, (heap.types.weakSlot? marked o).isSome := by
    intro o member
    rw [TypeTable.weakSlot?_congr (phase.marked.typeId o)]
    exact ((consistent.weak_iff o).mp member).2
  have bereft := phase.filter_losesTarget consistent
  obtain ⟨emptied, run, slots⟩ := exists_invalidateWeak
    (heap.withMarks marked kept scheduled reachable.length revived.length) consistent.weak_nodup
    holders
  change invalidateWeak _ = .ok
    (heap.weakHolders.toList.filter (heap.types.losesTarget marked)).length
    ((heap.withMarks marked kept scheduled reachable.length revived.length).withSlots
      marked emptied) at run
  change marked.Emptied heap.types emptied
    (heap.weakHolders.toList.filter (heap.types.losesTarget marked)) at slots
  rw [bereft] at run slots
  exact ⟨emptied, run, slots⟩

theorem MarkPhase.exists_cleared {emptied : Memory}
    (slots : marked.Emptied heap.types emptied heap.bereft) {ready : Heap σ}
    (types : ready.types = heap.types) (memory : ready.memory = emptied)
    (objects : ready.objects = heap.objects) (external : ready.external = heap.external)
    (heapSize : ready.heapSize = heap.heapSize) :
    ready.cost = heap.cost ∧
      ∃ cleared size,
        sweep ready =
          .ok
            { survivors := heap.reached.reverse
              freed := heap.unreached.length
              freedBytes := heap.bytes heap.unreached }
            (heap.swept ready cleared size) ∧
        heap.heapSize.toNat = heap.bytes heap.unreached + size.toNat ∧
        emptied.Unmarked cleared (heap.reached ++ heap.external.toList) := by
  have shape (o : Ref) : heap.types.SameShape heap.memory emptied o :=
    (phase.marked.sameShape o).trans (slots.sameShape consistent.types_valid o)
  have surviving : emptied.isSurviving = marked.isSurviving := funext slots.isSurviving
  have costs : ready.cost = heap.cost := by
    funext o
    rw [cost, cost, types, memory, TypeTable.cost_congr (shape o)]
  have bytes : ready.bytes = heap.bytes := bytes_of_cost costs
  have dead : ready.objects.toList.filter ready.isDead = heap.unreached := by
    rw [← phase.filter_dead consistent, ← surviving, ← memory, objects]
    rfl
  have alive : ready.objects.toList.filter ready.memory.isSurviving = heap.reached := by
    rw [← phase.filter_surviving consistent, ← surviving, memory, objects]
  have nodup := (List.nodup_append.mp consistent.live_nodup).1
  obtain ⟨cleared, size, run, left, clearing⟩ := exists_sweep ready
    (by
      rw [objects]
      exact nodup)
    (by
      intro o member
      have registered := List.mem_of_mem_filter member
      rw [objects] at registered
      obtain ⟨cost, known⟩ := consistent.sized o (mem_live_of_objects registered)
      rw [types, memory, TypeTable.allocationCost_congr (shape o)]
      exact ⟨cost, known⟩)
    (by
      rw [dead, bytes, heapSize, consistent.heapSize, ← bytes_reached_unreached]
      exact Nat.le_add_left _ _)
  rw [dead, alive, bytes] at run
  rw [dead, bytes, heapSize] at left
  rw [alive, external, memory] at clearing
  exact ⟨costs, cleared, size, run, left, clearing⟩

end

/-- A collection of a consistent heap whose references are all to live objects reaches the end of
    its sweep. -/
theorem exists_reclaimed {heap : Heap σ} (consistent : heap.Consistent)
    (traceable : heap.Traceable) :
    ∃ cycle after, reclaim heap = .ok cycle after ∧ heap.Reclaimed cycle after := by
  obtain ⟨reachable, kept, scheduled, revived, marked, marking, phase'⟩ :=
    exists_markAndSchedule (started_consistent consistent) (started_traceable traceable)
  have phase : heap.MarkPhase reachable kept scheduled revived marked := { phase' with }
  have unmarked := consistent.unmarked
  change markAndSchedule heap.started = .ok (reachable.length + revived.length, scheduled)
    (heap.withMarks marked kept scheduled reachable.length revived.length) at marking
  -- the phases after marking are stated for the heap that the collection started from
  obtain ⟨emptied, invalidating, slots⟩ := phase.exists_emptied consistent
  let ready : Heap σ :=
    (heap.withMarks marked kept scheduled reachable.length revived.length).withSlots marked emptied
  obtain ⟨costs, cleared, size, sweeping, left, clearing⟩ :=
    phase.exists_cleared consistent slots (show ready.types = heap.types from rfl) rfl rfl rfl rfl
  let cycle : Cycle :=
    { marked := reachable.length + revived.length
      scheduled
      weakrefsCleared := heap.bereft.length
      freed := heap.unreached.length
      freedBytes := heap.bytes heap.unreached }
  have releasings' : ready.releasings heap.unreached = heap.releasings heap.unreached := by
    rw [releasings, releasings, costs]
  have host : ready.releasedHost heap.unreached = heap.releasedHost heap.unreached := by
    rw [releasedHost, releasedHost, costs]
    rfl
  have types : ready.types = heap.types := rfl
  have growth : ready.growth = heap.growth := rfl
  have external : ready.external = heap.external := rfl
  have roots : ready.roots = heap.roots := rfl
  have scanners : ready.scanners = heap.scanners := rfl
  have previousHeapSize : ready.previousHeapSize = heap.previousHeapSize := rfl
  refine ⟨cycle, { heap.swept ready cleared size with stats := heap.stats.count cycle }, ?_, ?_⟩
  · have begun : checkUnmarked heap.started = .ok () := checkUnmarked_eq_ok unmarked
    rw [reclaim, modify_bind, get_bind, get_bind, bind_of_ok (log_eq_ok _)]
    change (check checkUnmarked >>= _) heap.started = _
    rw [bind_of_ok (check_of_ok begun), bind_of_ok marking]
    refine (bind_of_ok invalidating).trans ?_
    rw [bind_of_ok sweeping, modify_bind, pure_apply]
    rfl
  · exact {
      types
      growth
      external
      roots
      scanners
      previousHeapSize
      collecting := rfl
      objects := rfl
      host := host
      heapSize := left
      stats := rfl
      divides := phase.divides
      headerWord := Memory.headerWord_of_unmarked phase.marked slots clearing
        (by
          intro o
          exact (mem_reached_append_external consistent traceable).trans
            (phase.retained_iff o).symm)
        (by
          intro o found
          exact unmarked o (((phase.retained_iff o).mp found).live consistent traceable))
      payload_kept := by
        intro o member
        exact (clearing.payload o).trans ((slots.kept o member).trans (phase.marked.payload o))
      payload_bereft := by
        intro o member
        obtain ⟨slot, found, payload⟩ := slots.cleared o member
        rw [TypeTable.weakSlot?_congr (phase.marked.typeId o)] at found
        rw [phase.marked.payload] at payload
        exact ⟨slot, found, (clearing.payload o).trans payload⟩
      weakHolders := by
        intro o
        change o ∈ heap.weakHolders.toList.filter marked.isSurviving ↔ _
        rw [List.mem_filter]
        refine and_congr_right fun member => ?_
        exact phase.isSurviving_iff (unmarked o ((consistent.weak_iff o).mp member).1)
      weakHolders_sublist := List.filter_sublist
      journal := by
        change (ready.journal ++ (ready.releasings heap.unreached).toArray).toList = _
        rw [releasings', ← phase.length_reachable consistent traceable]
        simp [ready, withSlots, withMarks, Heap.marking, started, record, cycle]
      marked := phase.length_marked consistent traceable
      weakrefsCleared := rfl
      freed := rfl
      freedBytes := rfl }

end Reclaim.Heap
