import Reclaim.Cycle.Weak
import Reclaim.Proofs.Heap.Actions
import Reclaim.Proofs.Object.Types

namespace Reclaim

def TypeTable.losesTarget (types : TypeTable) (memory : Memory) (holder : Ref) : Bool :=
  memory.isSurviving holder &&
    (types.weakTarget? memory holder).any fun target => ! memory.isSurviving target

structure Memory.Emptied (types : TypeTable) (before after : Memory) (emptied : List Ref) :
    Prop where
  headerWord : ∀ o, after.headerWord o = before.headerWord o
  kept : ∀ o, o ∉ emptied → after.payload o = before.payload o
  cleared : ∀ o ∈ emptied, ∃ slot, types.weakSlot? before o = some slot ∧
    after.payload o = (before.payload o).writeWord slot.toNat 0

namespace Memory.Emptied

variable {types : TypeTable} {before after : Memory} {emptied : List Ref}

theorem refl (memory : Memory) : Emptied types memory memory [] :=
  ⟨fun _ => rfl, fun _ _ => rfl, fun _ member => nomatch member⟩

theorem header (h : Emptied types before after emptied) (o : Ref) :
    after.header o = before.header o :=
  header_congr (h.headerWord o)

theorem isSurviving (h : Emptied types before after emptied) (o : Ref) :
    after.isSurviving o = before.isSurviving o :=
  isSurviving_congr (h.headerWord o)

theorem sameShape (valid : types.Valid) (h : Emptied types before after emptied) (o : Ref) :
    types.SameShape before after o := by
  by_cases member : o ∈ emptied
  · obtain ⟨slot, found, payload⟩ := h.cleared o member
    have written := TypeTable.SameShape.writeWord_weak valid 0 found
    refine ⟨congrArg Header.typeId (h.header o), ?_⟩
    intro descriptor known
    rw [payload, ← written.length descriptor known, payload_writeWord, if_pos rfl]
  · exact .of_payload (congrArg Header.typeId (h.header o)) (h.kept o member)

theorem cons {holder : Ref} {slot : Word} (fresh : holder ∉ emptied)
    (found : types.weakSlot? before holder = some slot)
    (rest : Emptied types (before.writeWord holder slot 0) after emptied) :
    Emptied types before after (holder :: emptied) := by
  refine ⟨?_, ?_, ?_⟩
  · intro o
    rw [rest.headerWord, headerWord_writeWord]
  · intro o member
    rw [List.mem_cons, not_or] at member
    rw [rest.kept o member.2, payload_writeWord, if_neg (Ne.symm member.1)]
  · intro o member
    rcases List.mem_cons.mp member with rfl | member
    · refine ⟨slot, found, ?_⟩
      rw [rest.kept o fresh, payload_writeWord, if_pos rfl]
    · obtain ⟨other, found', payload⟩ := rest.cleared o member
      have different : holder ≠ o := by
        rintro rfl
        exact fresh member
      have typeId : ((before.writeWord holder slot 0).header o).typeId =
          (before.header o).typeId :=
        congrArg Header.typeId (header_congr (headerWord_writeWord ..))
      rw [TypeTable.weakSlot?_congr typeId] at found'
      rw [payload_writeWord, if_neg different] at payload
      exact ⟨other, found', payload⟩

end Memory.Emptied

namespace Heap

variable {σ : Type} {heap : Heap σ} {holder : Ref}

theorem weakOffsetOf_eq_ok {slot : Word}
    (h : heap.types.weakSlot? heap.memory holder = some slot) :
    weakOffsetOf holder heap = .ok slot := by
  simp only [TypeTable.weakSlot?, Option.bind_eq_bind, Option.bind_eq_some_iff] at h
  obtain ⟨descriptor, known, weak⟩ := h
  simp only [weakOffsetOf, TypeTable.expect, known, bind, Except.bind, weak]

theorem clearDeadTarget_of_loses {slot : Word}
    (h : heap.types.weakSlot? heap.memory holder = some slot)
    (loses : heap.types.losesTarget heap.memory holder = true) :
    clearDeadTarget holder heap =
      .ok true { heap with memory := heap.memory.writeWord holder slot 0 } := by
  rw [clearDeadTarget, bind_of_ok (check_of_ok (weakOffsetOf_eq_ok h)), get_bind]
  simp only [TypeTable.losesTarget, TypeTable.weakTarget?, h, Option.bind_eq_bind,
    Option.bind_some, Bool.and_eq_true] at loses
  cases target : heap.memory.readRef holder slot with
  | none =>
    rw [target] at loses
    simp at loses
  | some object =>
    rw [target] at loses
    have unmarked : heap.memory.isSurviving object = false := by simpa using loses.2
    simp only [unmarked]
    rfl

theorem clearDeadTarget_of_keeps {slot : Word}
    (h : heap.types.weakSlot? heap.memory holder = some slot)
    (surviving : heap.memory.isSurviving holder = true)
    (keeps : heap.types.losesTarget heap.memory holder = false) :
    clearDeadTarget holder heap = .ok false heap := by
  rw [clearDeadTarget, bind_of_ok (check_of_ok (weakOffsetOf_eq_ok h)), get_bind]
  simp only [TypeTable.losesTarget, TypeTable.weakTarget?, h, Option.bind_eq_bind,
    Option.bind_some, surviving, Bool.true_and] at keeps
  cases target : heap.memory.readRef holder slot with
  | none => rfl
  | some object =>
    rw [target] at keeps
    have marked : heap.memory.isSurviving object = true := by simpa using keeps
    simp only [marked]
    rfl

theorem invalidateEach_cons (kept : List Ref) (cleared : Nat) (holder : Ref) (rest : List Ref)
    (heap : Heap σ) :
    invalidateEach kept cleared (holder :: rest) heap =
      if heap.memory.isSurviving holder then
        (onFault (fun heap => { heap with weakHolders := (kept.reverse ++ holder :: rest).toArray })
            (clearDeadTarget holder) >>= fun emptied =>
          invalidateEach (holder :: kept) (cleared + emptied.toNat) rest) heap
      else invalidateEach kept cleared rest heap := by
  rw [invalidateEach, get_bind]
  split <;> rfl

theorem losesTarget_writeWord_of_ne {types : TypeTable} {memory : Memory} {other : Ref}
    {slot word : Word} (different : holder ≠ other) :
    types.losesTarget (memory.writeWord holder slot word) other =
      types.losesTarget memory other := by
  have marks : (memory.writeWord holder slot word).isSurviving = memory.isSurviving := by
    funext o
    exact Memory.isSurviving_congr (Memory.headerWord_writeWord ..)
  have target : types.weakTarget? (memory.writeWord holder slot word) other =
      types.weakTarget? memory other := by
    apply TypeTable.weakTarget?_congr
    · exact congrArg Header.typeId (Memory.header_congr (Memory.headerWord_writeWord ..))
    · rw [Memory.payload_writeWord, if_neg different]
  rw [TypeTable.losesTarget, TypeTable.losesTarget, marks, target]

structure Invalidated (heap : Heap σ) (kept : List Ref) (cleared : Nat) (holders : List Ref)
    (after : Memory) : Prop where
  run : invalidateEach kept cleared holders heap =
    .ok
      ((holders.filter heap.memory.isSurviving).reverse ++ kept,
        cleared + (holders.filter (heap.types.losesTarget heap.memory)).length)
      { heap with memory := after }
  emptied : heap.memory.Emptied heap.types after
    (holders.filter (heap.types.losesTarget heap.memory))

section Pass

variable {heap : Heap σ} {kept rest : List Ref} {cleared : Nat} {holder : Ref} {slot : Word}
  {after : Memory}

theorem Invalidated.nil : heap.Invalidated kept cleared [] heap.memory where
  run := by simp [invalidateEach, pure_apply]
  emptied := .refl _

theorem Invalidated.lost (surviving : heap.memory.isSurviving holder = false)
    (more : heap.Invalidated kept cleared rest after) :
    heap.Invalidated kept cleared (holder :: rest) after := by
  have keeps : heap.types.losesTarget heap.memory holder = false := by
    rw [TypeTable.losesTarget, surviving, Bool.false_and]
  constructor
  · rw [invalidateEach_cons, if_neg (by simp [surviving]), more.run]
    simp [surviving, keeps]
  · simpa [keeps] using more.emptied

theorem Invalidated.keep (found : heap.types.weakSlot? heap.memory holder = some slot)
    (surviving : heap.memory.isSurviving holder = true)
    (keeps : heap.types.losesTarget heap.memory holder = false)
    (more : heap.Invalidated (holder :: kept) cleared rest after) :
    heap.Invalidated kept cleared (holder :: rest) after := by
  constructor
  · rw [invalidateEach_cons, if_pos surviving,
      bind_of_ok (onFault_of_ok (clearDeadTarget_of_keeps found surviving keeps))]
    simpa [surviving, keeps] using more.run
  · simpa [keeps] using more.emptied

theorem Invalidated.empty (found : heap.types.weakSlot? heap.memory holder = some slot)
    (surviving : heap.memory.isSurviving holder = true)
    (loses : heap.types.losesTarget heap.memory holder = true) (fresh : holder ∉ rest)
    (more : Invalidated { heap with memory := heap.memory.writeWord holder slot 0 }
      (holder :: kept) (cleared + 1) rest after) :
    heap.Invalidated kept cleared (holder :: rest) after := by
  obtain ⟨run, emptied⟩ := more
  have others : rest.filter (heap.types.losesTarget (heap.memory.writeWord holder slot 0)) =
      rest.filter (heap.types.losesTarget heap.memory) := by
    apply List.filter_congr
    intro o member
    exact losesTarget_writeWord_of_ne fun same => fresh (same ▸ member)
  have marks : (heap.memory.writeWord holder slot 0).isSurviving = heap.memory.isSurviving := by
    funext o
    exact Memory.isSurviving_congr (Memory.headerWord_writeWord ..)
  simp only [others, marks] at run emptied
  constructor
  · rw [invalidateEach_cons, if_pos surviving,
      bind_of_ok (onFault_of_ok (clearDeadTarget_of_loses found loses))]
    refine run.trans ?_
    simp [surviving, loses, Nat.add_assoc, Nat.add_comm]
  · rw [List.filter_cons_of_pos loses]
    exact .cons (fun member => fresh (List.mem_filter.mp member).1) found emptied

end Pass

theorem exists_invalidateEach (heap : Heap σ) (kept : List Ref) (cleared : Nat) (holders : List Ref)
    (nodup : holders.Nodup)
    (slots : ∀ o ∈ holders, (heap.types.weakSlot? heap.memory o).isSome) :
    ∃ after, heap.Invalidated kept cleared holders after := by
  induction holders generalizing heap kept cleared with
  | nil => exact ⟨heap.memory, .nil⟩
  | cons holder rest ih =>
    obtain ⟨fresh, nodup⟩ := List.nodup_cons.mp nodup
    obtain ⟨slot, found⟩ := Option.isSome_iff_exists.mp (slots holder List.mem_cons_self)
    have slots' : ∀ o ∈ rest, (heap.types.weakSlot? heap.memory o).isSome := fun o member =>
      slots o (List.mem_cons_of_mem _ member)
    cases surviving : heap.memory.isSurviving holder with
    | false =>
      obtain ⟨after, more⟩ := ih heap kept cleared nodup slots'
      exact ⟨after, more.lost surviving⟩
    | true =>
      cases loses : heap.types.losesTarget heap.memory holder with
      | false =>
        obtain ⟨after, more⟩ := ih heap (holder :: kept) cleared nodup slots'
        exact ⟨after, more.keep found surviving loses⟩
      | true =>
        have typeIds (o : Ref) : ((heap.memory.writeWord holder slot 0).header o).typeId =
            (heap.memory.header o).typeId :=
          congrArg Header.typeId (Memory.header_congr (Memory.headerWord_writeWord ..))
        obtain ⟨after, more⟩ := ih { heap with memory := heap.memory.writeWord holder slot 0 }
          (holder :: kept) (cleared + 1) nodup (by
            intro o member
            rw [TypeTable.weakSlot?_congr (typeIds o)]
            exact slots' o member)
        exact ⟨after, more.empty found surviving loses fresh⟩

theorem exists_invalidateWeak (heap : Heap σ) (nodup : heap.weakHolders.toList.Nodup)
    (slots : ∀ o ∈ heap.weakHolders.toList, (heap.types.weakSlot? heap.memory o).isSome) :
    ∃ after,
      invalidateWeak heap =
        .ok (heap.weakHolders.toList.filter (heap.types.losesTarget heap.memory)).length
          { heap with
            memory := after
            weakHolders := (heap.weakHolders.toList.filter heap.memory.isSurviving).toArray } ∧
      heap.memory.Emptied heap.types after
        (heap.weakHolders.toList.filter (heap.types.losesTarget heap.memory)) := by
  obtain ⟨after, run, emptied⟩ :=
    exists_invalidateEach heap [] 0 heap.weakHolders.toList nodup slots
  refine ⟨after, ?_, emptied⟩
  rw [invalidateWeak, get_bind, bind_of_ok run]
  simp [modify_bind, pure_apply]

end Heap

end Reclaim
