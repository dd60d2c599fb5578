import Mathlib.Data.List.Nodup
import Reclaim.Proofs.Cycle.MarkPhase

namespace Reclaim

namespace Divides

variable {reached : List Ref → Ref → Prop} {starts : List Ref}
  {entries kept scheduled : List FinalizerEntry} (h : Divides reached starts entries kept scheduled)
  (nodup : entries.Nodup)

include h nodup

/-- Whether an entry is scheduled depends on the starts and on the objects of all entries before
    it. -/
theorem mem_scheduled_iff {i : Nat} (inside : i < entries.length) : entries[i] ∈ scheduled ↔
    ¬ reached (starts ++ (entries.take i).map FinalizerEntry.object) entries[i].object := by
  -- an entry joins the starts of those behind it whether it was scheduled or not
  induction h generalizing i with
  | nil => cases inside
  | @keep starts entry rest kept scheduled alive more ih =>
    obtain ⟨fresh, nodup⟩ := List.nodup_cons.mp nodup
    cases i with
    | zero =>
      have unscheduled : entry ∉ scheduled := fun member =>
        fresh (more.scheduled_sublist.subset member)
      simp [unscheduled, alive]
    | succ i => simpa using ih nodup (Nat.lt_of_succ_lt_succ inside)
  | @schedule starts entry rest kept scheduled dead more ih =>
    obtain ⟨fresh, nodup⟩ := List.nodup_cons.mp nodup
    cases i with
    | zero => simpa using dead
    | succ i =>
      have inside : i < rest.length := Nat.lt_of_succ_lt_succ inside
      have other : rest[i] ≠ entry := fun same => fresh (same ▸ List.getElem_mem inside)
      simpa [other] using ih nodup inside

theorem mem_kept_iff {entry : FinalizerEntry} (member : entry ∈ entries) :
    entry ∈ kept ↔ entry ∉ scheduled := by
  have apart := List.nodup_append.mp (h.perm.nodup_iff.mpr nodup)
  constructor
  · exact fun left right => apart.2.2 entry left entry right rfl
  · exact (List.mem_append.mp (h.perm.mem_iff.mpr member)).resolve_right

end Divides

namespace Heap

variable {σ : Type}

/-- What scheduling does to a heap in which the objects are marked that the roots reach. -/
structure Partitioned (before : Heap σ) (scheduled : List FinalizerEntry) (revived : List Ref)
    (after : Heap σ) : Prop where
  /-- A finalizer is scheduled if its object is reached neither from the root table, the scanners
      and the external objects nor from the object of an earlier entry. -/
  scheduled_iff : ∀ i (inside : i < before.finalizers.size), before.finalizers[i] ∈ scheduled ↔
    ¬ before.types.Reachable before.memory (before.rootObjects ++ before.finalizerObjects.take i)
      before.finalizers[i].object
  kept_iff : ∀ i (inside : i < before.finalizers.size),
    before.finalizers[i] ∈ after.finalizers.toList ↔
      before.types.Reachable before.memory (before.rootObjects ++ before.finalizerObjects.take i)
        before.finalizers[i].object
  scheduled_sublist : scheduled.Sublist before.finalizers.toList
  kept_sublist : after.finalizers.toList.Sublist before.finalizers.toList
  perm : (after.finalizers.toList ++ scheduled).Perm before.finalizers.toList
  unflagged : ∀ entry ∈ scheduled,
    (before.memory.flags entry.object).contains .finalizerReachable = false
  flagged : ∀ o, (after.memory.flags o).contains .finalizerReachable = true ↔
    (before.memory.flags o).contains .finalizerReachable = true ∨
      o ∈ scheduled.map FinalizerEntry.object
  surviving_iff : ∀ o ∈ before.live, after.memory.isSurviving o = true ↔
    before.types.Reachable before.memory (before.rootObjects ++ before.finalizerObjects) o
  revived_nodup : revived.Nodup
  revived_iff : ∀ o, o ∈ revived ↔ before.Retained o ∧
    ¬ before.types.Reachable before.memory before.rootObjects o
  marked : before.memory.Marked after.memory revived (scheduled.map FinalizerEntry.object)
  rest : after = { before with
    memory := after.memory, finalizers := after.finalizers, journal := after.journal }
  journal : after.journal.toList = before.journal.toList ++ schedulings scheduled

variable {heap : Heap σ}

theorem Divided.partitioned {kept scheduled : List FinalizerEntry} {revived : List Ref}
    {memory : Memory} (partway : heap.Partway heap.rootObjects heap.finalizers.toList)
    (initial : ∀ o ∈ heap.live, heap.memory.isSurviving o = true ↔
      heap.types.Reachable heap.memory heap.rootObjects o)
    (divided : heap.Divided heap.rootObjects {} heap.finalizers.toList kept scheduled revived
      memory) :
    heap.Partitioned scheduled revived
      { heap.marking memory (schedulings scheduled) with finalizers := kept.toArray } := by
  have divides := divided.divides
  have nodup : heap.finalizers.toList.Nodup := .of_map _ partway.nodup
  have scheduled_iff (i : Nat) (inside : i < heap.finalizers.size) :
      heap.finalizers[i] ∈ scheduled ↔ ¬ heap.types.Reachable heap.memory
        (heap.rootObjects ++ heap.finalizerObjects.take i) heap.finalizers[i].object := by
    have each := divides.mem_scheduled_iff nodup (i := i) (by simpa using inside)
    rwa [List.map_take, Array.getElem_toList] at each
  constructor
  · exact scheduled_iff
  · intro i inside
    have member : heap.finalizers[i] ∈ heap.finalizers.toList := by simp
    rw [List.toList_toArray, divides.mem_kept_iff nodup member, scheduled_iff i inside, not_not]
  · exact divides.scheduled_sublist
  · exact divides.kept_sublist
  · exact divides.perm
  · intro entry member
    exact partway.pending _ (List.mem_map_of_mem (divides.scheduled_sublist.subset member))
  · intro o
    change (memory.flags o).contains .finalizerReachable = true ↔ _
    rw [divided.marked.finalizerReachable, Bool.or_eq_true, decide_eq_true_eq, or_comm]
  · intro o live
    change memory.isSurviving o = true ↔ heap.Retained o
    have grows : heap.types.Reachable heap.memory heap.rootObjects o → heap.Retained o :=
      fun reached => reached.append _
    have revived_iff : o ∈ revived ↔ heap.Retained o ∧ _ := divided.mem_iff o
    rw [divided.marked.isSurviving, Bool.or_eq_true, decide_eq_true_eq, revived_iff, initial o live]
    tauto
  · exact divided.nodup
  · exact divided.mem_iff
  · exact divided.marked
  · rfl
  · simp [marking]

/-- In every well-formed heap the initial mark gets to its end, and so does scheduling after it. -/
theorem schedule_partitions (consistent : heap.Consistent) (traceable : heap.Traceable) :
    ∃ reachable marked scheduled revived after,
      mark heap.rootObjects heap = .ok reachable marked ∧
      marked = { heap with memory := marked.memory } ∧
      (∀ o ∈ marked.live, marked.memory.isSurviving o = true ↔
        marked.types.Reachable marked.memory marked.rootObjects o) ∧
      scheduleFinalizers marked = .ok (scheduled, revived.length) after ∧
      marked.Partitioned scheduled revived after := by
  obtain ⟨reachable, middle, ran, reachable_iff⟩ := exists_ran_rootObjects consistent traceable
  have partway := partway_of_ran consistent traceable ran reachable_iff
  have initial : ∀ o ∈ heap.live, middle.isSurviving o = true ↔
      heap.types.Reachable middle heap.rootObjects o := by
    intro o live
    rw [ran.marked.isSurviving, consistent.unmarked o live, Bool.or_false, decide_eq_true_eq,
      reachable_iff, ran.marked.reachable]
  obtain ⟨kept, scheduled, revived, after, divided⟩ := exists_divided
    { heap with memory := middle } heap.rootObjects {} heap.finalizers.toList partway
  exact ⟨reachable, { heap with memory := middle }, scheduled, revived, _, mark_eq_ok ran, rfl,
    initial, scheduleFinalizers_eq_ok divided, divided.partitioned partway initial⟩

def waiting : Heap SystemMemory where
  growth := {}
  types := .nodes
  host := { used := 10 }
  memory := ((((({} : Memory).writeWord .lowest 0 48).writeWord (.placed 80) 0 112).writeWord
    (.placed 112) 0 80).writeWord (.placed 144) 0 144)
  objects := #[.lowest, .placed 48, .placed 80, .placed 112, .placed 144]
  finalizers := #[{ object := .placed 48, queue := ⟨0⟩, light := false },
    { object := .placed 112, queue := ⟨1⟩, light := true },
    { object := .placed 80, queue := ⟨0⟩, light := false },
    { object := .placed 144, queue := ⟨0⟩, light := true }]
  roots := { slots := #[.occupied (some .lowest)] }
  heapSize := 80

theorem consistent_waiting : waiting.Consistent where
  types_valid := TypeTable.valid_nodes
  live_nodup := by decide
  unmarked := by decide
  sized := by decide +kernel
  heapSize := by decide
  finalizers_nodup := by decide
  finalizers_mem := by decide
  finalizers_pending := by decide
  weak_nodup := .nil
  weak_iff := by
    intro o
    have none_weak : waiting.types.weakSlot? waiting.memory o = none := TypeTable.weakSlot?_nodes ..
    exact iff_of_false List.not_mem_nil (by simp [none_weak])
  roots_live := by decide

theorem traceable_waiting : waiting.Traceable where
  scanners_live := nofun
  children_live := by decide +kernel

theorem scheduled_waiting : ∃ reachable marked scheduled after,
    mark waiting.rootObjects waiting = .ok reachable marked ∧
      scheduleFinalizers marked = .ok (scheduled, 3) after ∧
      scheduled.map FinalizerEntry.object = [.placed 112, .placed 144] ∧
      after.finalizerObjects = [.placed 48, .placed 80] :=
  ⟨_, _, _, _, rfl, rfl, rfl, rfl⟩

theorem schedule_partitions_waiting :
    waiting.Consistent ∧ waiting.Traceable ∧ ∃ reachable marked scheduled revived after,
      mark waiting.rootObjects waiting = .ok reachable marked ∧
      scheduleFinalizers marked = .ok (scheduled, revived.length) after ∧
      marked.Partitioned scheduled revived after ∧ revived.length = 3 ∧
      scheduled.map FinalizerEntry.object = [.placed 112, .placed 144] ∧
      after.finalizerObjects = [.placed 48, .placed 80] := by
  obtain ⟨reachable, marked, scheduled, revived, after, first, -, -, second, partitioned⟩ :=
    schedule_partitions consistent_waiting traceable_waiting
  obtain ⟨_, _, _, _, first', second', due, kept⟩ := scheduled_waiting
  cases first.symm.trans first'
  have same := second.symm.trans second'
  simp only [EStateM.Result.ok.injEq, Prod.mk.injEq] at same
  obtain ⟨⟨rfl, count⟩, rfl⟩ := same
  exact ⟨consistent_waiting, traceable_waiting, reachable, marked, scheduled, revived, after, first,
    second, partitioned, count, due, kept⟩

end Heap

end Reclaim
