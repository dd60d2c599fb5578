import Mathlib.Tactic.Tauto
import Reclaim.Proofs.Heap.Admission
import Reclaim.Proofs.Heap.Effects

namespace Reclaim

namespace Request

variable {request : Request}

structure Admitted (request : Request) (types : TypeTable) (queues : Nat) (cost : Word)
    (descriptor : Descriptor) : Prop where
  known : types.get? request.typeId = some descriptor
  layout : descriptor.layout = request.layout
  queue : ∀ finalizer, request.finalizer = some finalizer → finalizer.queue.index < queues
  size : ∃ size, request.layout.payloadSize? request.length = some size ∧
    allocationCost? size = some cost

theorem exists_admitted {types : TypeTable} {queues : Nat} {cost : Word}
    (accepted : request.accept types queues = .ok cost) :
    ∃ descriptor, request.Admitted types queues cost descriptor := by
  obtain ⟨⟨⟨descriptor, known, agrees⟩, queued⟩, price⟩ := accept_eq_ok.mp accepted
  exact ⟨descriptor, known, agrees.layout, queued, Option.bind_eq_some_iff.mp price⟩

theorem isExternal_of_finalizer {finalizer : Finalizer} (h : request.finalizer = some finalizer) :
    request.isExternal = false := by
  cases request with
  | fixed => rfl
  | varsize => rfl
  | external => cases h

theorem mem_entries {object : Ref} {entry : FinalizerEntry} :
    entry ∈ request.entries object ↔ ∃ finalizer, request.finalizer = some finalizer ∧
      entry = ⟨object, finalizer.queue, finalizer.light⟩ := by
  rw [entries, Option.mem_toList, Option.map_eq_some_iff]
  simp only [eq_comm]

theorem flags_header (request : Request) :
    (Header.decode request.header.encode).flags =
      if request.isExternal then .external else .empty := by
  have bits := Header.bits_decode_encode request.header
  have same : (Header.decode request.header.encode).flags =
      ⟨request.header.flags.bits &&& 0xffffffffffff⟩ := congrArg Flags.mk bits
  have external : (⟨Flags.external.bits &&& 0xffffffffffff⟩ : Flags) = .external := by decide
  have empty : (⟨Flags.empty.bits &&& 0xffffffffffff⟩ : Flags) = .empty := by decide
  rw [same, header]
  split
  · exact external
  · exact empty

theorem allocationCost_of_admitted {types : TypeTable} {queues : Nat} {cost : Word}
    {descriptor : Descriptor} (admitted : request.Admitted types queues cost descriptor)
    {memory : Memory} {object : Ref} (typeId : (memory.header object).typeId = request.typeId)
    (payload : memory.payload object = request.payload) :
    types.allocationCost memory object = .ok cost := by
  obtain ⟨size, sized, total⟩ := admitted.size
  have read : descriptor.layout.payloadSize (memory.payload object) = .ok size := by
    rw [admitted.layout]
    refine Layout.payloadSize_of_payloadSize? sized ?_
    intro n recorded
    rw [payload] at recorded
    cases request with
    | fixed => cases recorded
    | external => cases recorded
    | varsize typeId length base item lengthOffset =>
      simp only [layout, Layout.length?, Request.payload, Option.some.injEq] at recorded
      rw [Payload.readWord_writeWord_self] at recorded
      exact recorded.symm
  rw [TypeTable.allocationCost_eq, typeId, admitted.known]
  simp only [read, total]

end Request

namespace Heap

variable {σ : Type} {before after : Heap σ}

theorem Aside.live_eq (h : before.Aside after) : after.live = before.live := by
  rw [live, live, h.objects, h.external]

theorem Aside.consistent (consistent : before.Consistent) (h : before.Aside after) :
    after.Consistent := by
  obtain ⟨types, memory, objects, external, finalizers, weakHolders, heapSize, roots, _⟩ := h
  cases after
  simp only at types memory objects external finalizers weakHolders heapSize roots
  subst types memory objects external finalizers weakHolders heapSize
  exact {
    consistent with
    roots_live := by
      intro o member
      rcases roots o member with held | live
      · exact consistent.roots_live o held
      · exact live }

section Wrote

variable {object : Ref} {offset : Nat} {bytes : List UInt8}

theorem Wrote.types_eq (h : before.Wrote after object offset bytes) : after.types = before.types := by
  rw [h.after_eq]

theorem Wrote.headerWord (h : before.Wrote after object offset bytes) (o : Ref) :
    after.memory.headerWord o = before.memory.headerWord o := by
  rw [h.after_eq]
  exact Memory.headerWord_writeBytes ..

theorem Wrote.payload (h : before.Wrote after object offset bytes) (o : Ref) :
    after.memory.payload o =
      if object = o then (before.memory.payload o).write offset bytes
      else before.memory.payload o := by
  rw [h.after_eq]
  exact Memory.payload_writeBytes ..

theorem Wrote.sameShape (h : before.Wrote after object offset bytes) (o : Ref) :
    before.types.SameShape before.memory after.memory o := by
  by_cases same : object = o
  · exact same ▸ h.shape
  · refine .of_payload (congrArg Header.typeId (Memory.header_congr (h.headerWord o))) ?_
    rw [h.payload, if_neg same]

theorem Wrote.cost_eq (h : before.Wrote after object offset bytes) : after.cost = before.cost := by
  funext o
  rw [cost, cost, h.types_eq]
  exact TypeTable.cost_congr (h.sameShape o)

theorem Wrote.live_eq (h : before.Wrote after object offset bytes) : after.live = before.live := by
  rw [h.after_eq]
  rfl

theorem Wrote.consistent (consistent : before.Consistent)
    (h : before.Wrote after object offset bytes) : after.Consistent := by
  have shape := h.sameShape
  have headerWord := h.headerWord
  have sizes : after.bytes after.objects.toList = before.bytes after.objects.toList := by
    rw [Heap.bytes, Heap.bytes, h.cost_eq]
  rw [h.after_eq] at shape headerWord sizes ⊢
  exact {
    consistent with
    unmarked := by
      intro o member
      exact (Memory.isSurviving_congr (headerWord o)).trans (consistent.unmarked o member)
    sized := by
      intro o member
      obtain ⟨cost, known⟩ := consistent.sized o member
      exact ⟨cost, (TypeTable.allocationCost_congr (shape o)).trans known⟩
    heapSize := consistent.heapSize.trans sizes.symm
    finalizers_pending := by
      intro o member
      have pending := consistent.finalizers_pending o member
      rw [← Memory.flags_congr (headerWord o)] at pending
      exact pending
    weak_iff := by
      intro o
      have slot := @TypeTable.weakSlot?_congr before.types _ _ _ (shape o).typeId
      exact (consistent.weak_iff o).trans (and_congr_right fun _ => by rw [slot]) }

end Wrote

section Granted

variable [RawMemory σ] {request : Request} {cost : Word} {object : Ref}

theorem Granted.mem_live (h : before.Granted after request cost object) (o : Ref) :
    o ∈ after.live ↔ o ∈ before.live ∨ o = object := by
  simp only [live, h.objects, h.external, List.mem_append]
  cases request.isExternal <;> simp <;> tauto

theorem Granted.live_nodup (h : before.Granted after request cost object)
    (fresh : object ∉ before.live) (nodup : before.live.Nodup) : after.live.Nodup := by
  have grown : (object :: before.live).Nodup := List.nodup_cons.mpr ⟨fresh, nodup⟩
  rw [live, h.objects, h.external]
  refine (List.Perm.nodup_iff ?_).mp grown
  cases request.isExternal with
  | true =>
    simp only [if_true, List.append_nil, ← List.append_assoc]
    exact (List.perm_append_singleton object before.live).symm
  | false =>
    simp only [Bool.false_eq_true, if_false, List.append_nil, List.append_assoc,
      List.singleton_append]
    exact List.perm_middle.symm

theorem Granted.flags (h : before.Granted after request cost object) :
    after.memory.flags object = if request.isExternal then .external else .empty := by
  rw [Memory.flags, Memory.header, h.headerWord, if_pos rfl]
  exact request.flags_header

theorem Granted.typeId (h : before.Granted after request cost object) :
    (after.memory.header object).typeId = request.typeId := by
  rw [Memory.header, h.headerWord, if_pos rfl, Header.typeId_decode_encode, Request.header]

theorem Granted.sameShape (h : before.Granted after request cost object) {o : Ref}
    (other : object ≠ o) : before.types.SameShape before.memory after.memory o := by
  refine .of_payload (congrArg Header.typeId (Memory.header_congr ?_)) ?_
  · rw [h.headerWord, if_neg other]
  · rw [h.payload, if_neg other]

theorem Granted.headerWord_old (h : before.Granted after request cost object)
    (fresh : object ∉ before.live) {o : Ref} (member : o ∈ before.live) :
    after.memory.headerWord o = before.memory.headerWord o := by
  rw [h.headerWord, if_neg]
  rintro rfl
  exact fresh member

theorem Granted.sameShape_old (h : before.Granted after request cost object)
    (fresh : object ∉ before.live) {o : Ref} (member : o ∈ before.live) :
    before.types.SameShape before.memory after.memory o := by
  apply h.sameShape
  rintro rfl
  exact fresh member

theorem Granted.allocationCost (h : before.Granted after request cost object) {queues : Nat}
    {descriptor : Descriptor} (admitted : request.Admitted before.types queues cost descriptor) :
    after.types.allocationCost after.memory object = .ok cost := by
  rw [h.types]
  apply Request.allocationCost_of_admitted admitted h.typeId
  rw [h.payload, if_pos rfl]

theorem Granted.bytes_old (h : before.Granted after request cost object)
    (fresh : object ∉ before.live) {objects : List Ref} (sub : ∀ o ∈ objects, o ∈ before.live) :
    after.bytes objects = before.bytes objects := by
  unfold bytes
  congr 1
  apply List.map_congr_left
  intro o member
  rw [Heap.cost, Heap.cost, h.types, TypeTable.cost_congr (h.sameShape_old fresh (sub o member))]

theorem Granted.heapSize_eq (consistent : before.Consistent)
    (h : before.Granted after request cost object) (fresh : object ∉ before.live) {queues : Nat}
    {descriptor : Descriptor} (admitted : request.Admitted before.types queues cost descriptor) :
    after.heapSize.toNat = after.bytes after.objects.toList := by
  have paid : after.cost object = cost := TypeTable.cost_of_ok (h.allocationCost admitted)
  have old : after.bytes before.objects.toList = before.bytes before.objects.toList :=
    h.bytes_old fresh fun o member => mem_live_of_objects member
  have one : after.bytes [object] = cost.toNat := by simp [bytes, paid]
  have both (first second : List Ref) :
      after.bytes (first ++ second) = after.bytes first + after.bytes second := by
    simp [bytes]
  rw [h.heapSize, h.objects, consistent.heapSize, both, old]
  cases request.isExternal with
  | true => rfl
  | false => exact congrArg _ one.symm

theorem Granted.finalizerObjects_eq (h : before.Granted after request cost object) :
    after.finalizerObjects =
      before.finalizerObjects ++ (request.entries object).map FinalizerEntry.object := by
  rw [finalizerObjects, h.finalizers, List.map_append, finalizerObjects]

theorem Granted.mem_finalizerObjects (h : before.Granted after request cost object) {o : Ref}
    (member : o ∈ after.finalizerObjects) :
    o ∈ before.finalizerObjects ∨ (o = object ∧ request.isExternal = false) := by
  rw [h.finalizerObjects_eq, List.mem_append] at member
  rcases member with old | new
  · exact .inl old
  · obtain ⟨entry, listed, rfl⟩ := List.mem_map.mp new
    obtain ⟨finalizer, wanted, rfl⟩ := Request.mem_entries.mp listed
    exact .inr ⟨rfl, Request.isExternal_of_finalizer wanted⟩

theorem Granted.finalizers_nodup (consistent : before.Consistent)
    (h : before.Granted after request cost object) (fresh : object ∉ before.live) :
    after.finalizerObjects.Nodup := by
  rw [h.finalizerObjects_eq]
  refine List.nodup_append.mpr ⟨consistent.finalizers_nodup, ?_, ?_⟩
  · unfold Request.entries
    cases request.finalizer <;> simp
  · rintro a old b new rfl
    obtain ⟨entry, listed, rfl⟩ := List.mem_map.mp new
    obtain ⟨finalizer, _, rfl⟩ := Request.mem_entries.mp listed
    exact fresh (mem_live_of_objects (consistent.finalizers_mem _ old))

theorem Granted.weakHolders_iff (consistent : before.Consistent)
    (h : before.Granted after request cost object) (fresh : object ∉ before.live) (o : Ref) :
    o ∈ after.weakHolders.toList ↔
      o ∈ after.live ∧ (after.types.weakSlot? after.memory o).isSome := by
  have unheld : object ∉ before.weakHolders.toList := fun member =>
    fresh ((consistent.weak_iff object).mp member).1
  have slot : after.types.weakSlot? after.memory object =
      before.types.get? request.typeId >>= Descriptor.weakOffset := by
    rw [TypeTable.weakSlot?, h.types, h.typeId]
  rw [h.weakHolders, List.mem_append, h.mem_live]
  by_cases same : object = o
  · subst same
    rw [slot]
    simp [unheld, Request.hasWeakSlot]
  · have old : after.types.weakSlot? after.memory o = before.types.weakSlot? before.memory o := by
      rw [h.types]
      exact TypeTable.weakSlot?_congr (h.sameShape same).typeId
    have distinct : o ≠ object := Ne.symm same
    have nobody (p : Prop) [Decidable p] : o ∉ (if p then [object] else []) := by
      split <;> simp [distinct]
    have unlisted := nobody (request.hasWeakSlot before.types ∧ object ∉ before.weakHolders.toList)
    rw [old, consistent.weak_iff]
    tauto

theorem Granted.weak_nodup (consistent : before.Consistent)
    (h : before.Granted after request cost object) : after.weakHolders.toList.Nodup := by
  rw [h.weakHolders]
  split
  · rename_i new
    refine List.nodup_append.mpr ⟨consistent.weak_nodup, List.nodup_singleton _, ?_⟩
    rintro a old b listed rfl
    rw [List.mem_singleton.mp listed] at old
    exact new.2 old
  · rw [List.append_nil]
    exact consistent.weak_nodup

theorem Granted.consistent (consistent : before.Consistent)
    (h : before.Granted after request cost object) (fresh : object ∉ before.live)
    {queues : Nat} {descriptor : Descriptor}
    (admitted : request.Admitted before.types queues cost descriptor) : after.Consistent := by
  have unflagged : (after.memory.flags object).contains .surviving = false ∧
      (after.memory.flags object).contains .finalizerReachable = false := by
    rw [h.flags]
    cases request.isExternal <;> decide
  exact {
    types_valid := h.types ▸ consistent.types_valid
    live_nodup := h.live_nodup fresh consistent.live_nodup
    unmarked := by
      intro o member
      rcases (h.mem_live o).mp member with old | rfl
      · rw [Memory.isSurviving_congr (h.headerWord_old fresh old)]
        exact consistent.unmarked o old
      · exact unflagged.1
    sized := by
      intro o member
      rcases (h.mem_live o).mp member with old | rfl
      · obtain ⟨cost, known⟩ := consistent.sized o old
        rw [h.types, TypeTable.allocationCost_congr (h.sameShape_old fresh old)]
        exact ⟨cost, known⟩
      · exact ⟨cost, h.allocationCost admitted⟩
    heapSize := h.heapSize_eq consistent fresh admitted
    finalizers_nodup := h.finalizers_nodup consistent fresh
    finalizers_mem := by
      intro o member
      rw [h.objects, List.mem_append]
      rcases h.mem_finalizerObjects member with old | ⟨rfl, internal⟩
      · exact .inl (consistent.finalizers_mem o old)
      · right
        simp [internal]
    finalizers_pending := by
      intro o member
      rcases h.mem_finalizerObjects member with old | ⟨rfl, _⟩
      · have live := mem_live_of_objects (consistent.finalizers_mem o old)
        rw [Memory.flags_congr (h.headerWord_old fresh live)]
        exact consistent.finalizers_pending o old
      · exact unflagged.2
    weak_nodup := h.weak_nodup consistent
    weak_iff := h.weakHolders_iff consistent fresh
    roots_live := by
      intro o member
      rw [h.roots] at member
      exact (h.mem_live o).mpr (.inl (consistent.roots_live o member)) }

end Granted

theorem Cleared.consistent [RawMemory σ] (valid : before.types.Valid) (h : before.Cleared after) :
    after.Consistent := by
  have none (o : Ref) : o ∉ after.live := by
    rw [live, h.objects, h.external]
    simp
  have unlisted : after.finalizerObjects = [] := by
    rw [finalizerObjects, h.finalizers]
    rfl
  exact {
    types_valid := h.types ▸ valid
    live_nodup := by
      rw [live, h.objects, h.external]
      exact List.nodup_nil
    unmarked := fun o member => (none o member).elim
    sized := fun o member => (none o member).elim
    heapSize := by
      rw [h.heapSize, h.objects]
      rfl
    finalizers_nodup := by
      rw [unlisted]
      exact List.nodup_nil
    finalizers_mem := by
      rw [unlisted]
      simp
    finalizers_pending := by
      rw [unlisted]
      simp
    weak_nodup := by
      rw [h.weakHolders]
      exact List.nodup_nil
    weak_iff := by
      intro o
      rw [h.weakHolders]
      exact iff_of_false List.not_mem_nil fun both => none o both.1
    roots_live := by
      intro o member
      rw [h.roots] at member
      cases member }

end Heap

end Reclaim
