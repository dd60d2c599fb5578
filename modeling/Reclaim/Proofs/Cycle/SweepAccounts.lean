import Reclaim.Proofs.Cycle.Sweeping
import Reclaim.Proofs.Object.HeaderCodec

namespace Reclaim

structure Memory.MarksRemoved (before after : Memory) (objects : List Ref) : Prop where
  header : ∀ o ∈ objects, after.header o =
    (before.header o).withFlags ((before.flags o).difference .surviving)
  unmarked : ∀ o ∈ objects, after.isSurviving o = false
  others : ∀ o, o ∉ objects → after.headerWord o = before.headerWord o
  payload : ∀ o, after.payload o = before.payload o

theorem Memory.Unmarked.marksRemoved {before after : Memory} {objects : List Ref}
    (h : before.Unmarked after objects) : before.MarksRemoved after objects := by
  have header : ∀ o ∈ objects, after.header o =
      (before.header o).withFlags ((before.flags o).difference .surviving) := by
    intro o member
    rw [Memory.header, h.headerWord, if_pos member, Header.decode_and_not_mask]
    rfl
  refine ⟨header, ?_, ?_, h.payload⟩
  · intro o member
    rw [isSurviving, flags, header o member]
    exact Flags.contains_difference_surviving _
  · intro o absent
    rw [h.headerWord, if_neg absent]

namespace Heap

variable {σ : Type} {heap : Heap σ}

def markedObjects (heap : Heap σ) : List Ref :=
  heap.objects.toList.filter heap.memory.isSurviving

def unmarkedObjects (heap : Heap σ) : List Ref :=
  heap.objects.toList.filter heap.isDead

theorem exists_first_past (heap : Heap σ) {objects : List Ref} {limit : Nat}
    (short : limit < heap.bytes (objects.filter heap.isDead)) :
    ∃ seen object rest, objects = seen ++ object :: rest ∧ heap.isDead object = true ∧
      heap.bytes (seen.filter heap.isDead) ≤ limit ∧
      limit < heap.bytes (seen.filter heap.isDead) + (heap.cost object).toNat := by
  induction objects generalizing limit with
  | nil => exact absurd short (Nat.not_lt_zero _)
  | cons first others ih =>
    by_cases dead : heap.isDead first = true
    · rw [List.filter_cons_of_pos dead, bytes_cons] at short
      -- the limit is passed here, or what this object leaves of it is passed further on
      by_cases fits : (heap.cost first).toNat ≤ limit
      · obtain ⟨seen, object, rest, rfl, found, within, past⟩ :=
          @ih (limit - (heap.cost first).toNat) (by omega)
        refine ⟨first :: seen, object, rest, rfl, found, ?_⟩
        rw [List.filter_cons_of_pos dead, bytes_cons]
        omega
      · exact ⟨[], first, others, rfl, dead, Nat.zero_le _, by simpa [bytes] using fits⟩
    · rw [List.filter_cons_of_neg dead] at short
      obtain ⟨seen, object, rest, rfl, found, within, past⟩ := ih short
      refine ⟨first :: seen, object, rest, rfl, found, ?_⟩
      rw [List.filter_cons_of_neg dead]
      exact ⟨within, past⟩

variable [RawMemory σ]

structure Discharged (before : Heap σ) (freed : List Ref) (after : Heap σ) : Prop where
  costs : ∀ o ∈ freed, before.types.allocationCost before.memory o = .ok (before.cost o)
  journal : after.journal = before.journal ++ (before.releasings freed).toArray
  host : after.host = before.releasedHost freed
  heapSize : before.heapSize.toNat = before.bytes freed + after.heapSize.toNat
  rest : after =
    { before with
      host := after.host
      memory := after.memory
      objects := after.objects
      heapSize := after.heapSize
      journal := after.journal }

structure SweptThrough (before : Heap σ) (sweep : Sweep) (after : Heap σ) : Prop where
  discharged : before.Discharged before.unmarkedObjects after
  objects : after.objects.toList = before.markedObjects
  memory : before.memory.MarksRemoved after.memory (before.markedObjects ++ before.external.toList)
  freed : sweep.freed = before.unmarkedObjects.length
  freedBytes : sweep.freedBytes = before.bytes before.unmarkedObjects

/-- What a sweep has done that the heap size was too small for. It has seen some objects and freed
    the dead ones among them when it meets one that costs more than is left. -/
structure SweptUntil (before : Heap σ) (seen : List Ref) (object : Ref) (rest : List Ref)
    (fault : Fault) (after : Heap σ) : Prop where
  registry : before.objects.toList = seen ++ object :: rest
  dead : before.isDead object = true
  cost : before.types.allocationCost before.memory object = .ok (before.cost object)
  within : before.bytes (seen.filter before.isDead) ≤ before.heapSize.toNat
  past : before.heapSize.toNat <
    before.bytes (seen.filter before.isDead) + (before.cost object).toNat
  underflow : fault = .heapSizeUnderflow (before.cost object) after.heapSize
  message : ∀ label, fault.message label =
    s!"heap size underflow: freeing {before.cost object} bytes from a heap of {after.heapSize} bytes"
  discharged : before.Discharged (seen.filter before.isDead) after
  objects : after.objects.toList = rest
  memory : before.memory.MarksRemoved after.memory (seen.filter before.memory.isSurviving)

theorem sweepEach_append {sweep done : Sweep} {seen : List Ref} {middle : Heap σ}
    (run : sweepEach sweep seen heap = .ok done middle) (rest : List Ref) :
    sweepEach sweep (seen ++ rest) heap = sweepEach done rest middle := by
  induction seen generalizing sweep heap with
  | nil =>
    cases run
    rfl
  | cons object others ih =>
    rw [List.cons_append, sweepEach_cons]
    rw [sweepEach_cons] at run
    split at run
    · rename_i surviving
      rw [if_pos surviving]
      exact ih run
    · rename_i dead
      obtain ⟨cost, charged, ran, run⟩ := bind_eq_ok.mp run
      obtain ⟨_, released, ran', run⟩ := bind_eq_ok.mp run
      rw [if_neg dead, bind_of_ok (onFault_of_ok (onFault_eq_ok.mp ran)), bind_of_ok ran']
      exact ih run

theorem discharged_freeing {freed : List Ref} {memory : Memory} {size : Word} (objects : Array Ref)
    (sized : ∀ o ∈ freed, ∃ cost, heap.types.allocationCost heap.memory o = .ok cost)
    (left : heap.heapSize.toNat = heap.bytes freed + size.toNat) :
    heap.Discharged freed { heap.freeing freed memory size with objects } where
  costs := by
    intro o member
    obtain ⟨cost, known⟩ := sized o member
    rw [known, cost_eq_of_ok known]
  journal := rfl
  host := rfl
  heapSize := left
  rest := rfl

theorem Passed.stop {sweep : Sweep} {seen rest : List Ref} {object : Ref} {middle : Memory}
    {left : Word} (passed : heap.Passed sweep seen middle left) (unseen : object ∉ seen)
    (dead : heap.isDead object = true)
    (known : heap.types.allocationCost heap.memory object = .ok (heap.cost object))
    (short : left.toNat < (heap.cost object).toNat) :
    sweepEach sweep (seen ++ object :: rest) heap =
      .error (.heapSizeUnderflow (heap.cost object) left)
        { heap.freeing (seen.filter heap.isDead) middle left with objects := rest.toArray } := by
  have untouched : middle.headerWord object = heap.memory.headerWord object := by
    rw [passed.unmarked.headerWord, if_neg fun member => unseen (List.mem_of_mem_filter member)]
  have unmarked :
      ¬ (heap.freeing (seen.filter heap.isDead) middle left).memory.isSurviving object = true := by
    change ¬ middle.isSurviving object = true
    rw [Memory.isSurviving_congr untouched]
    simpa [isDead] using dead
  have cost : heap.types.allocationCost middle object = .ok (heap.cost object) :=
    (TypeTable.allocationCost_congr (passed.unmarked.sameShape object)).trans known
  have failed : discharge object (heap.freeing (seen.filter heap.isDead) middle left) =
      .error (.heapSizeUnderflow (heap.cost object) left)
        (heap.freeing (seen.filter heap.isDead) middle left) :=
    discharge_eq_error cost short
  rw [sweepEach_append passed.run, sweepEach_cons, if_neg unmarked,
    bind_of_error (onFault_of_error failed)]

theorem exists_sweptUntil {seen rest : List Ref} {object : Ref}
    (nodup : heap.objects.toList.Nodup)
    (sized : ∀ o ∈ heap.unmarkedObjects, ∃ cost, heap.types.allocationCost heap.memory o = .ok cost)
    (registry : heap.objects.toList = seen ++ object :: rest) (dead : heap.isDead object = true)
    (within : heap.bytes (seen.filter heap.isDead) ≤ heap.heapSize.toNat)
    (past : heap.heapSize.toNat <
      heap.bytes (seen.filter heap.isDead) + (heap.cost object).toNat) :
    ∃ fault after,
      sweep heap = .error fault after ∧ heap.SweptUntil seen object rest fault after := by
  rw [registry, List.nodup_append] at nodup
  rw [unmarkedObjects, registry, List.filter_append, List.filter_cons_of_pos dead] at sized
  have unseen : object ∉ seen := fun member =>
    nodup.2.2 object member object List.mem_cons_self rfl
  have sized_seen : ∀ o ∈ seen.filter heap.isDead,
      ∃ cost, heap.types.allocationCost heap.memory o = .ok cost :=
    fun o among => sized o (List.mem_append_left _ among)
  obtain ⟨cost, known⟩ := sized object (List.mem_append_right _ List.mem_cons_self)
  have same := cost_eq_of_ok known
  subst same
  obtain ⟨memory, left, passed⟩ := exists_sweepEach heap {} seen nodup.1 sized_seen within
  have total := passed.left
  have stopped : sweepEach {} (seen ++ object :: rest) heap = _ :=
    passed.stop unseen dead known (by omega)
  refine ⟨_, _, ?_, {
    registry, dead, within, past
    cost := known
    underflow := rfl
    message := fun _ => rfl
    discharged := discharged_freeing _ sized_seen total
    objects := rfl
    memory := passed.unmarked.marksRemoved }⟩
  rw [sweep, get_bind, registry]
  exact bind_of_error stopped

/-- A sweep accounts for every object, whichever are marked, if it can tell what those cost that are
    not. It frees all of these if the heap size is at least the sum of their costs, and otherwise
    ends with a fault at the first one with which the sum goes past it. -/
theorem sweep_accounts (heap : Heap σ) (nodup : heap.objects.toList.Nodup)
    (sized : ∀ o ∈ heap.unmarkedObjects,
      ∃ cost, heap.types.allocationCost heap.memory o = .ok cost) :
    (heap.bytes heap.unmarkedObjects ≤ heap.heapSize.toNat →
      ∃ outcome after, sweep heap = .ok outcome after ∧ heap.SweptThrough outcome after) ∧
    (heap.heapSize.toNat < heap.bytes heap.unmarkedObjects →
      ∃ seen object rest fault after,
        sweep heap = .error fault after ∧ heap.SweptUntil seen object rest fault after) := by
  constructor
  · intro enough
    obtain ⟨memory, size, run, left, unmarked⟩ := exists_sweep heap nodup sized enough
    exact ⟨_, _, run, {
      discharged := discharged_freeing _ sized left
      objects := rfl
      memory := unmarked.marksRemoved
      freed := rfl
      freedBytes := rfl }⟩
  · intro short
    obtain ⟨seen, object, rest, registry, dead, within, past⟩ := heap.exists_first_past short
    exact ⟨seen, object, rest, exists_sweptUntil nodup sized registry dead within past⟩

def partlyMarked (heapSize : Word) : Heap SystemMemory where
  growth := {}
  types := .nodes
  host := { used := 8 }
  memory := (({} : Memory).setHeader .lowest ⟨⟨0⟩, ⟨0x10001⟩⟩).setHeader (.placed 112) ⟨⟨0⟩, ⟨3⟩⟩
  objects := #[.lowest, .placed 48, .placed 80]
  external := #[.placed 112]
  heapSize

theorem sweep_accounts_partlyMarked :
    (∃ outcome after, sweep (partlyMarked 48) = .ok outcome after ∧
      (partlyMarked 48).SweptThrough outcome after ∧ outcome.freedBytes = 32 ∧
      after.memory.flags .lowest = ⟨0x10000⟩) ∧
    ∃ seen object rest fault after, sweep (partlyMarked 20) = .error fault after ∧
      (partlyMarked 20).SweptUntil seen object rest fault after := by
  constructor
  · obtain ⟨outcome, after, run, swept⟩ :=
      (sweep_accounts (partlyMarked 48) (by decide) (by decide +kernel)).1 (by decide +kernel)
    have bytes : (partlyMarked 48).bytes (partlyMarked 48).unmarkedObjects = 32 := by decide +kernel
    have kept : .lowest ∈ (partlyMarked 48).markedObjects := by decide +kernel
    have header := swept.memory.header .lowest (List.mem_append_left _ kept)
    refine ⟨outcome, after, run, swept, swept.freedBytes.trans bytes, ?_⟩
    rw [Memory.flags, header]
    decide +kernel
  · exact (sweep_accounts (partlyMarked 20) (by decide) (by decide +kernel)).2 (by decide +kernel)

end Heap

end Reclaim
