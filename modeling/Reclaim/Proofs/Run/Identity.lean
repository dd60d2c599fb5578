import Reclaim.Proofs.Heap.Access
import Reclaim.Proofs.Run.HeapSize

namespace Reclaim

variable {σ : Type}

def Request.length? : Request → Option Word
  | .varsize _ length _ _ _ => some length
  | _ => none

namespace Heap

variable {before after heap : Heap σ} {o : Ref} {request : Request}

structure Bears (heap : Heap σ) (o : Ref) (request : Request) : Prop where
  typeId : (heap.memory.header o).typeId = request.typeId
  external : (heap.memory.flags o).contains .external = request.isExternal
  layout : ∃ descriptor, heap.types.get? request.typeId = some descriptor ∧
    descriptor.layout = request.layout
  length : request.layout.length? (heap.memory.payload o) = request.length?

theorem Bears.unaltered (bears : before.Bears o request) (same : before.Unaltered after o) :
    after.Bears o request := by
  obtain ⟨typeId, external, ⟨descriptor, known, layout⟩, length⟩ := bears
  refine ⟨same.shape.typeId.trans typeId, same.external.trans external,
    ⟨descriptor, same.types ▸ known, layout⟩, ?_⟩
  have recorded := same.shape.length descriptor (typeId ▸ known)
  rw [layout, length] at recorded
  exact recorded

theorem Granted.bears [RawMemory σ] {queues : Nat} {cost : Word} {descriptor : Descriptor}
    (h : before.Granted after request cost o)
    (admitted : request.Admitted before.types queues cost descriptor) :
    after.Bears o request where
  typeId := h.typeId
  external := by
    rw [h.flags]
    cases request.isExternal <;> decide
  layout := ⟨descriptor, h.types ▸ admitted.known, admitted.layout⟩
  length := by
    rw [h.payload, if_pos rfl]
    cases request with
    | fixed | external => rfl
    | varsize typeId length base item lengthOffset =>
      simp [Request.layout, Layout.length?, Request.payload, Request.length?]

def Identified (heap : Heap σ) (history : List (Happening σ)) : Prop :=
  ∀ o ∈ heap.live, ∃ request, o.request? history = some request ∧ heap.Bears o request

theorem Change.identified [RawMemory σ] {history new : List (Happening σ)}
    (change : before.Change new after) (identified : before.Identified history) :
    after.Identified (history ++ new) := by
  intro o member
  cases change with
  | spared none_granted left =>
    obtain ⟨old, same⟩ := left o member
    obtain ⟨request, asked, bears⟩ := identified o old
    exact ⟨request, (Ref.request?_append_of_none (none_granted o)).trans asked,
      bears.unaltered same⟩
  | @granted object granted _ _ _ given fresh admitted h only =>
    subst only
    -- an address that was freed may be granted again, and then the newest request counts
    by_cases same : object = o
    · subst same
      exact ⟨granted, Ref.request?_append_allocated given, h.bears admitted⟩
    · have old := ((h.mem_live o).mp member).resolve_right (Ne.symm same)
      obtain ⟨request, asked, bears⟩ := identified o old
      refine ⟨request, ?_, bears.unaltered (h.unaltered fresh old)⟩
      rw [Ref.request?_append_of_none, asked]
      intro happening listed
      rw [List.mem_singleton.mp listed, Happening.granted?, if_neg same]

/-- An object as its request made it, in the block that was granted for it: `size` is the length of
    its payload and `cost` the number of bytes that the raw memory was asked for. -/
structure Houses (heap : Heap σ) (o : Ref) (request : Request) (descriptor : Descriptor)
    (size cost : Word) : Prop where
  typeId : (heap.memory.header o).typeId = request.typeId
  external : (heap.memory.flags o).contains .external = request.isExternal
  known : heap.types.get? request.typeId = some descriptor
  layout : descriptor.layout = request.layout
  lengthOf : heap.lengthOf o = .ok request.length?
  sized : request.layout.payloadSize? request.length = some size
  view : heap.view o = .ok
    { object := o, typeId := request.typeId, payloadLength := size,
      payload := heap.memory.payload o }
  priced : request.cost? = some cost
  held : (o, cost) ∈ heap.ledger.held
  room : headerSize.toNat + size.toNat ≤ cost.toNat
  lengthWord : ∀ base item offset, request.layout = .varsize base item offset →
    (heap.memory.payload o).readWord offset.toNat = request.length ∧
      offset.toNat + 8 ≤ size.toNat
  weakSlot : ∀ offset, descriptor.weakOffset = some offset → offset.toNat + 8 ≤ size.toNat
  slice : ∃ start length, writablePart o heap = .ok (start, length) ∧
    start.toNat + length.toNat = size.toNat

theorem Bears.readWord (bears : heap.Bears o request) {base item offset : Word}
    (layout : request.layout = .varsize base item offset) :
    (heap.memory.payload o).readWord offset.toNat = request.length := by
  have recorded := bears.length
  cases request with
  | fixed | external => cases layout
  | varsize =>
    cases layout
    exact Option.some.inj recorded

theorem Bears.houses (bears : heap.Bears o request) (consistent : heap.Consistent)
    (accounted : heap.Accounted) (live : o ∈ heap.live)
    (priced : request.cost? = some (heap.cost o)) :
    ∃ descriptor size cost, heap.Houses o request descriptor size cost := by
  obtain ⟨descriptor, known, layout⟩ := bears.layout
  obtain ⟨size, sized, total⟩ := Option.bind_eq_some_iff.mp priced
  have valid := consistent.types_valid
  have read : request.layout.payloadSize (heap.memory.payload o) = .ok size := by
    refine Layout.payloadSize_of_payloadSize? sized fun n recorded => ?_
    rw [bears.length] at recorded
    cases request with
    | fixed | external => cases recorded
    | varsize => exact (Option.some.inj recorded).symm
  have readable : heap.Readable o descriptor size := by
    refine ⟨?_, ?_⟩
    · rw [bears.typeId, known]
    · rw [layout, read]
  have room := le_of_allocationCost? total
  obtain ⟨start, length, writable, _, whole⟩ := readable.exists_writablePart valid
  refine ⟨descriptor, size, heap.cost o, {
    typeId := bears.typeId
    external := bears.external
    known := known
    layout := layout
    lengthOf := ?_
    sized := sized
    view := bears.typeId ▸ readable.view_eq_ok
    priced := priced
    held := accounted.mem_held live
    room := ?_
    lengthWord := fun base item offset varsize =>
      ⟨bears.readWord varsize, readable.length_inside valid (layout.trans varsize)⟩
    weakSlot := fun offset slot =>
      (Descriptor.weak_inside_of_validate (valid _ _ known) slot).trans readable.fixedPart_le
    slice := ⟨start, length, writable, whole⟩ }⟩
  · simp only [lengthOf, readable.descriptorOf_eq_ok, layout, bears.length, bind, Except.bind, pure,
      Except.pure]
  · have header : headerSize.toNat = 8 := rfl
    omega

end Heap

variable [RawMemory σ] {point last : Point σ}

theorem Heap.Identified.of_runs (sound : Sound point)
    (identified : point.collector.heap.Identified point.history)
    (run : Runs Point.Lawful point last) : last.collector.heap.Identified last.history := by
  induction run with
  | refl => exact identified
  | tail reached step ih =>
    obtain ⟨new, history, change⟩ := step.2.change (sound.of_runs reached) step.1
    rw [history]
    exact change.identified ih

/-- At every point of a run that keeps the contract, every live object is what the request made it
    that was last granted at its address: it has the type of the request and its length, and is
    external if the request was. Its header and its payload lie in the block that was granted, and
    so do the length word, the weak slot and the part that embedders write. -/
theorem Runs.identity_kept {types : TypeTable} (valid : types.Valid) (growth : Growth) (host : σ)
    (program : Program σ)
    (run : Runs Point.Lawful (.start { heap := { growth, types, host } } program) point) :
    ∀ o ∈ point.collector.heap.live, ∃ request descriptor size cost,
      o.request? point.history = some request ∧
        point.collector.heap.Houses o request descriptor size cost := by
  intro o live
  have start := Sound.start valid growth host program
  obtain ⟨sound, _, priced⟩ := (Sized.start valid growth host program).of_runs run
  obtain ⟨request, asked, bears⟩ := Heap.Identified.of_runs start nofun run o live
  have price := priced o live
  rw [Ref.price?_eq, asked] at price
  obtain ⟨descriptor, size, cost, houses⟩ :=
    bears.houses sound.consistent sound.accounted live price
  exact ⟨request, descriptor, size, cost, asked, houses⟩

theorem Runs.identity_kept_tour : ∃ point : Point Shelves,
    let heap := point.collector.heap
    (heap.stats.collections = 3 ∧ heap.stats.weakrefsCleared = 2 ∧
      heap.memory.readWord (.placed 192) 8 = 7) ∧
    (∃ descriptor size cost, heap.Houses (.placed 192) (.row 2) descriptor size cost) ∧
    (∃ descriptor size cost, heap.Houses (.placed 256) (.external ⟨0⟩ 16) descriptor size cost) ∧
    ∃ descriptor size cost,
      heap.Houses (.placed 64) (.holder (some ⟨⟨0⟩, true⟩)) descriptor size cost := by
  have kept := Runs.identity_kept TypeTable.valid_mixed .short ({} : Shelves) .tour
    (Runs.lawful_tour 40)
  have houses (o : Ref) (request : Request) (known : o ∈ (Point.after 40 .tour).collector.heap.live ∧
      o.request? (Point.after 40 .tour).history = some request) : ∃ descriptor size cost,
        (Point.after 40 .tour).collector.heap.Houses o request descriptor size cost := by
    obtain ⟨live, asked⟩ := known
    obtain ⟨other, descriptor, size, cost, again, houses⟩ := kept o live
    cases asked.symm.trans again
    exact ⟨descriptor, size, cost, houses⟩
  exact ⟨_, by decide +kernel, houses _ _ (by decide +kernel), houses _ _ (by decide +kernel),
    houses _ _ (by decide +kernel)⟩

end Reclaim
