import Mathlib.Algebra.BigOperators.Group.List.Basic
import Reclaim.Cycle.Sweep
import Reclaim.Proofs.Heap.Releasing

namespace Reclaim

structure Memory.Unmarked (before after : Memory) (cleared : List Ref) : Prop where
  headerWord : ∀ o, after.headerWord o =
    if o ∈ cleared then before.headerWord o &&& ~~~Flags.surviving.mask else before.headerWord o
  payload : ∀ o, after.payload o = before.payload o

namespace Memory.Unmarked

variable {before middle after : Memory} {cleared more : List Ref} {types : TypeTable}

theorem refl (memory : Memory) : Unmarked memory memory [] :=
  ⟨fun _ => rfl, fun _ => rfl⟩

theorem cons {object : Ref}
    (rest : Unmarked (before.removeFlag object .surviving) after cleared) :
    Unmarked before after (object :: cleared) := by
  refine ⟨fun o => ?_, fun o => by rw [rest.payload, payload_removeFlag]⟩
  rw [rest.headerWord, headerWord_removeFlag]
  by_cases same : object = o
  · subst same
    by_cases member : object ∈ cleared <;> simp [member, UInt64.and_assoc]
  · simp [same, Ne.symm same]

theorem trans (first : Unmarked before middle cleared) (second : Unmarked middle after more) :
    Unmarked before after (cleared ++ more) := by
  refine ⟨fun o => ?_, fun o => (second.payload o).trans (first.payload o)⟩
  rw [second.headerWord, first.headerWord]
  by_cases left : o ∈ cleared <;> by_cases right : o ∈ more <;>
    simp [left, right, UInt64.and_assoc]

theorem typeId (h : Unmarked before after cleared) (o : Ref) :
    (after.header o).typeId = (before.header o).typeId := by
  rw [header, h.headerWord]
  split
  · rw [Header.typeId_and_not_mask, header]
  · rw [header]

theorem sameShape (h : Unmarked before after cleared) (o : Ref) : types.SameShape before after o :=
  .of_payload (h.typeId o) (h.payload o)

end Memory.Unmarked

namespace Heap

variable {σ : Type}

theorem cost_removeFlag (types : TypeTable) (memory : Memory) (object : Ref) (flag : Flags) :
    types.cost (memory.removeFlag object flag) = types.cost memory := by
  funext o
  exact TypeTable.cost_congr (.of_payload (by simp) (by simp))

theorem cost_clearMark (object : Ref) (heap : Heap σ) :
    (clearMark object heap).cost = heap.cost :=
  cost_removeFlag heap.types heap.memory object .surviving

theorem isSurviving_removeFlag_of_ne {memory : Memory} {object other : Ref} {flag : Flags}
    (different : object ≠ other) :
    (memory.removeFlag object flag).isSurviving other = memory.isSurviving other := by
  apply Memory.isSurviving_congr
  rw [Memory.headerWord_removeFlag, if_neg different]

def isDead (heap : Heap σ) (object : Ref) : Bool :=
  ! heap.memory.isSurviving object

variable [RawMemory σ]

def freeing (heap : Heap σ) (dead : List Ref) (memory : Memory) (heapSize : Word) : Heap σ :=
  { heap.releasing dead with memory, heapSize }

omit [RawMemory σ] in
theorem isDead_of_surviving {heap : Heap σ} {object : Ref}
    (surviving : heap.memory.isSurviving object = true) : heap.isDead object = false := by
  rw [isDead, surviving, Bool.not_true]

omit [RawMemory σ] in
theorem isDead_of_not_surviving {heap : Heap σ} {object : Ref}
    (surviving : heap.memory.isSurviving object = false) : heap.isDead object = true := by
  rw [isDead, surviving, Bool.not_false]

theorem freeing_nil (heap : Heap σ) : heap.freeing [] heap.memory heap.heapSize = heap := by
  rw [freeing, releasing_nil]

theorem freeing_clearMark (heap : Heap σ) (object : Ref) (dead : List Ref) (memory : Memory)
    (heapSize : Word) :
    (clearMark object heap).freeing dead memory heapSize = heap.freeing dead memory heapSize := by
  simp only [freeing, releasing, releasedHost, releasings, cost_clearMark]
  rfl

theorem freeing_cons (heap : Heap σ) (object : Ref) (rest : List Ref) (memory : Memory)
    (first second : Word) :
    (heap.freeing [object] heap.memory first).freeing rest memory second =
      heap.freeing (object :: rest) memory second :=
  congrArg (fun released : Heap σ => { released with memory, heapSize := second })
    (releasing_cons heap object rest)

omit [RawMemory σ] in
theorem discharge_eq_ok {heap : Heap σ} {object : Ref} {cost remaining : Word}
    (known : heap.types.allocationCost heap.memory object = .ok cost)
    (enough : heap.heapSize.toNat = cost.toNat + remaining.toNat) :
    discharge object heap = .ok cost { heap with heapSize := remaining } := by
  have difference : Word.sub? heap.heapSize cost = some remaining :=
    Word.sub?_eq_some.mpr enough
  rw [discharge, bind_of_ok (costOf_eq_ok known), get_bind]
  simp only [difference]
  rfl

omit [RawMemory σ] in
theorem discharge_eq_error {heap : Heap σ} {object : Ref} {cost : Word}
    (known : heap.types.allocationCost heap.memory object = .ok cost)
    (short : heap.heapSize.toNat < cost.toNat) :
    discharge object heap = .error (.heapSizeUnderflow cost heap.heapSize) heap := by
  have difference : Word.sub? heap.heapSize cost = none := Word.sub?_eq_none.mpr short
  rw [discharge, bind_of_ok (costOf_eq_ok known), get_bind]
  simp only [difference]
  rfl

theorem sweepEach_cons (sweep : Sweep) (object : Ref) (rest : List Ref) (heap : Heap σ) :
    sweepEach sweep (object :: rest) heap =
      if heap.memory.isSurviving object then
        sweepEach { sweep with survivors := object :: sweep.survivors } rest (clearMark object heap)
      else
        (onFault (fun heap => { heap with objects := rest.toArray }) (discharge object) >>=
          fun cost => release object cost >>= fun _ =>
            sweepEach
              { sweep with
                freed := sweep.freed + 1
                freedBytes := sweep.freedBytes + cost.toNat }
              rest) heap := by
  rw [sweepEach, get_bind]
  split <;> rfl

structure Passed (heap : Heap σ) (sweep : Sweep) (objects : List Ref) (after : Memory)
    (size : Word) : Prop where
  run : sweepEach sweep objects heap =
    .ok
      { survivors := (objects.filter heap.memory.isSurviving).reverse ++ sweep.survivors
        freed := sweep.freed + (objects.filter heap.isDead).length
        freedBytes := sweep.freedBytes + heap.bytes (objects.filter heap.isDead) }
      (heap.freeing (objects.filter heap.isDead) after size)
  left : heap.heapSize.toNat = heap.bytes (objects.filter heap.isDead) + size.toNat
  unmarked : heap.memory.Unmarked after (objects.filter heap.memory.isSurviving)

section Pass

variable {heap : Heap σ} {sweep : Sweep} {object : Ref} {rest : List Ref} {after : Memory}
  {size : Word}

theorem Passed.nil : heap.Passed sweep [] heap.memory heap.heapSize where
  run := by simp [sweepEach, pure_apply, freeing_nil, bytes]
  left := by simp [bytes]
  unmarked := .refl _

omit [RawMemory σ] in
theorem filter_isSurviving_clearMark (fresh : object ∉ rest) :
    rest.filter (clearMark object heap).memory.isSurviving =
      rest.filter heap.memory.isSurviving := by
  apply List.filter_congr
  intro o member
  exact isSurviving_removeFlag_of_ne fun same => fresh (same ▸ member)

omit [RawMemory σ] in
theorem filter_isDead_clearMark (fresh : object ∉ rest) :
    rest.filter (clearMark object heap).isDead = rest.filter heap.isDead := by
  apply List.filter_congr
  intro o member
  unfold isDead
  congr 1
  exact isSurviving_removeFlag_of_ne fun same => fresh (same ▸ member)

omit [RawMemory σ] in
theorem bytes_clearMark : (clearMark object heap).bytes = heap.bytes := by
  funext objects
  rw [bytes, bytes, cost_clearMark]

theorem Passed.keep (surviving : heap.memory.isSurviving object = true) (fresh : object ∉ rest)
    (more : (clearMark object heap).Passed
      { sweep with survivors := object :: sweep.survivors } rest after size) :
    heap.Passed sweep (object :: rest) after size := by
  obtain ⟨run, left, unmarked⟩ := more
  rw [filter_isSurviving_clearMark fresh] at run unmarked
  rw [filter_isDead_clearMark fresh, bytes_clearMark] at run left
  have alive : ¬ heap.isDead object = true := by simp [isDead_of_surviving surviving]
  constructor
  · rw [List.filter_cons_of_neg alive, List.filter_cons_of_pos surviving, sweepEach_cons,
      if_pos surviving, run, freeing_clearMark]
    simp
  · rw [List.filter_cons_of_neg alive]
    exact left
  · rw [List.filter_cons_of_pos surviving]
    exact unmarked.cons

theorem Passed.free {remaining : Word} (surviving : heap.memory.isSurviving object = false)
    (known : heap.types.allocationCost heap.memory object = .ok (heap.cost object))
    (enough : heap.heapSize.toNat = (heap.cost object).toNat + remaining.toNat)
    (more : (heap.freeing [object] heap.memory remaining).Passed
      { sweep with
        freed := sweep.freed + 1
        freedBytes := sweep.freedBytes + (heap.cost object).toNat } rest after size) :
    heap.Passed sweep (object :: rest) after size := by
  have run : sweepEach _ _ _ = .ok
      { survivors := (rest.filter heap.memory.isSurviving).reverse ++ sweep.survivors
        freed := sweep.freed + 1 + (rest.filter heap.isDead).length
        freedBytes := sweep.freedBytes + (heap.cost object).toNat +
          heap.bytes (rest.filter heap.isDead) }
      ((heap.freeing [object] heap.memory remaining).freeing
        (rest.filter heap.isDead) after size) := more.run
  have left : remaining.toNat = heap.bytes (rest.filter heap.isDead) + size.toNat := more.left
  have dead := isDead_of_not_surviving surviving
  have alive : ¬ heap.memory.isSurviving object = true := by simp [surviving]
  have split := heap.bytes_cons object (rest.filter heap.isDead)
  have charged := discharge_eq_ok known enough
  have released : release object (heap.cost object) { heap with heapSize := remaining } =
      .ok () (heap.freeing [object] heap.memory remaining) :=
    release_eq_ok { heap with heapSize := remaining } object
  constructor
  · rw [List.filter_cons_of_pos dead, List.filter_cons_of_neg alive, sweepEach_cons, if_neg alive,
      bind_of_ok (onFault_of_ok charged), bind_of_ok released, run, freeing_cons, split,
      List.length_cons]
    simp only [Nat.add_assoc, Nat.add_comm]
  · rw [List.filter_cons_of_pos dead, split]
    omega
  · rw [List.filter_cons_of_neg alive]
    exact more.unmarked

end Pass

theorem exists_sweepEach (heap : Heap σ) (sweep : Sweep) (objects : List Ref)
    (nodup : objects.Nodup)
    (sized : ∀ o ∈ objects.filter heap.isDead,
      ∃ cost, heap.types.allocationCost heap.memory o = .ok cost)
    (enough : heap.bytes (objects.filter heap.isDead) ≤ heap.heapSize.toNat) :
    ∃ after size, heap.Passed sweep objects after size := by
  induction objects generalizing heap sweep with
  | nil => exact ⟨heap.memory, heap.heapSize, .nil⟩
  | cons object rest ih =>
    obtain ⟨fresh, nodup⟩ := List.nodup_cons.mp nodup
    cases surviving : heap.memory.isSurviving object with
    | true =>
      rw [List.filter_cons_of_neg (by simp [isDead_of_surviving surviving])] at enough sized
      -- the mark of this object is taken off, and those still to come keep theirs
      obtain ⟨after, size, more⟩ := ih (clearMark object heap)
        { sweep with survivors := object :: sweep.survivors } nodup
        (by
          intro o member
          rw [filter_isDead_clearMark fresh] at member
          have same : heap.types.SameShape heap.memory (clearMark object heap).memory o :=
            .of_payload (Memory.typeId_removeFlag ..) (Memory.payload_removeFlag ..)
          obtain ⟨cost, known⟩ := sized o member
          exact ⟨cost, (TypeTable.allocationCost_congr same).trans known⟩)
        (by
          rw [filter_isDead_clearMark fresh, bytes_clearMark]
          exact enough)
      exact ⟨after, size, more.keep surviving fresh⟩
    | false =>
      rw [List.filter_cons_of_pos (isDead_of_not_surviving surviving)] at enough sized
      obtain ⟨⟨cost, known⟩, sized⟩ := List.forall_mem_cons.mp sized
      have same := cost_eq_of_ok known
      subst same
      have split := heap.bytes_cons object (rest.filter heap.isDead)
      have le : heap.cost object ≤ heap.heapSize := UInt64.le_iff_toNat_le.mpr (by omega)
      have difference := UInt64.toNat_sub_of_le _ _ le
      have remaining : heap.heapSize.toNat =
          (heap.cost object).toNat + (heap.heapSize - heap.cost object).toNat := by omega
      obtain ⟨after, size, more⟩ := ih
        (heap.freeing [object] heap.memory (heap.heapSize - heap.cost object))
        { sweep with
          freed := sweep.freed + 1
          freedBytes := sweep.freedBytes + (heap.cost object).toNat } nodup sized
        (show heap.bytes (rest.filter heap.isDead) ≤
          (heap.heapSize - heap.cost object).toNat by omega)
      exact ⟨after, size, more.free surviving known remaining⟩

omit [RawMemory σ] in
theorem clearMarks_eq (heap : Heap σ) (objects : List Ref) :
    ∃ after, objects.foldl (fun heap object => heap.clearMark object) heap =
        { heap with memory := after } ∧
      heap.memory.Unmarked after objects := by
  induction objects generalizing heap with
  | nil => exact ⟨heap.memory, rfl, .refl _⟩
  | cons object rest ih =>
    obtain ⟨after, run, unmarked⟩ := ih (heap.clearMark object)
    exact ⟨after, run, unmarked.cons⟩

theorem exists_sweep (heap : Heap σ) (nodup : heap.objects.toList.Nodup)
    (sized : ∀ o ∈ heap.objects.toList.filter heap.isDead,
      ∃ cost, heap.types.allocationCost heap.memory o = .ok cost)
    (enough : heap.bytes (heap.objects.toList.filter heap.isDead) ≤ heap.heapSize.toNat) :
    ∃ after size,
      sweep heap =
        .ok
          { survivors := (heap.objects.toList.filter heap.memory.isSurviving).reverse
            freed := (heap.objects.toList.filter heap.isDead).length
            freedBytes := heap.bytes (heap.objects.toList.filter heap.isDead) }
          { heap.freeing (heap.objects.toList.filter heap.isDead) after size with
            objects := (heap.objects.toList.filter heap.memory.isSurviving).toArray } ∧
      heap.heapSize.toNat = heap.bytes (heap.objects.toList.filter heap.isDead) + size.toNat ∧
      heap.memory.Unmarked after
        (heap.objects.toList.filter heap.memory.isSurviving ++ heap.external.toList) := by
  obtain ⟨middle, size, ⟨run, left, registry⟩⟩ := exists_sweepEach heap {} heap.objects.toList nodup
    sized enough
  obtain ⟨after, cleared, external⟩ := clearMarks_eq
    { heap.freeing (heap.objects.toList.filter heap.isDead) middle size with
      objects := (heap.objects.toList.filter heap.memory.isSurviving).toArray }
    heap.external.toList
  refine ⟨after, size, ?_, left, registry.trans external⟩
  rw [sweep, get_bind, bind_of_ok run, modify_bind, modify_bind, pure_apply]
  simp only [List.append_nil, List.reverse_reverse, Nat.zero_add]
  congr 1
  rw [← Array.foldl_toList]
  exact cleared

end Heap

end Reclaim
