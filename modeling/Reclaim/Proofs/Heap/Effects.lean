import Reclaim.Client.Program
import Reclaim.Proofs.Heap.Ledger
import Reclaim.Proofs.Heap.Releasing

namespace Reclaim

namespace RootTable

variable {table changed : RootTable} {id : RootId} {target : Option Ref} {o : Ref}

theorem mem_objects : o ∈ table.objects ↔ RootSlot.occupied (some o) ∈ table.slots.toList := by
  rw [objects, List.mem_filterMap]
  constructor
  · rintro ⟨slot, member, found⟩
    cases slot with
    | occupied held =>
      cases found
      exact member
    | vacant => cases found
  · intro member
    exact ⟨_, member, rfl⟩

theorem mem_objects_of_setIfInBounds {slots : Array RootSlot} {index : Nat} {slot : RootSlot}
    {free : List Nat} (h : o ∈ objects { slots := slots.setIfInBounds index slot, free }) :
    RootSlot.occupied (some o) ∈ slots.toList ∨ slot = .occupied (some o) := by
  rw [mem_objects, Array.toList_setIfInBounds] at h
  rcases List.mem_or_eq_of_mem_set h with old | new
  · exact .inl old
  · exact .inr new.symm

theorem mem_objects_of_add (h : o ∈ (table.add target).2.objects) :
    o ∈ table.objects ∨ target = some o := by
  rw [add] at h
  split at h
  · rcases mem_objects_of_setIfInBounds h with old | new
    · exact .inl (mem_objects.mpr old)
    · cases new
      exact .inr rfl
  · rw [mem_objects, Array.toList_push, List.mem_append, List.mem_singleton] at h
    rcases h with old | new
    · exact .inl (mem_objects.mpr old)
    · cases new
      exact .inr rfl

theorem mem_objects_of_set (changes : table.set id target = .ok changed) (h : o ∈ changed.objects) :
    o ∈ table.objects ∨ target = some o := by
  rw [set] at changes
  split at changes
  · cases changes
    rcases mem_objects_of_setIfInBounds h with old | new
    · exact .inl (mem_objects.mpr old)
    · cases new
      exact .inr rfl
  · cases changes

theorem mem_objects_of_remove (changes : table.remove id = .ok changed) (h : o ∈ changed.objects) :
    o ∈ table.objects := by
  rw [remove] at changes
  split at changes
  · cases changes
    rcases mem_objects_of_setIfInBounds h with old | new
    · exact mem_objects.mpr old
    · cases new
  · cases changes

end RootTable

namespace Request

def payload : Request → Payload
  | varsize _ length _ _ lengthOffset => Payload.zero.writeWord lengthOffset.toNat length
  | _ => .zero

def header (request : Request) : Header :=
  ⟨request.typeId, if request.isExternal then .external else .empty⟩

def writeLength (request : Request) (object : Ref) (memory : Memory) : Memory :=
  match request with
  | varsize _ length _ _ lengthOffset => memory.writeWord object lengthOffset length
  | _ => memory

def place (request : Request) (object : Ref) (memory : Memory) : Memory :=
  request.writeLength object ((memory.clear object).setHeader object request.header)

theorem headerWord_place (request : Request) (object o : Ref) (memory : Memory) :
    (request.place object memory).headerWord o =
      if object = o then request.header.encode else memory.headerWord o := by
  have written : ((memory.clear object).setHeader object request.header).headerWord o =
      if object = o then request.header.encode else memory.headerWord o := by
    rw [Memory.setHeader, Memory.headerWord_setHeaderWord]
    by_cases same : object = o
    · rw [if_pos same, if_pos same]
    · rw [if_neg same, if_neg same, Memory.headerWord_clear, if_neg same]
  cases request with
  | varsize => exact (Memory.headerWord_writeWord ..).trans written
  | fixed => exact written
  | external => exact written

theorem payload_place (request : Request) (object o : Ref) (memory : Memory) :
    (request.place object memory).payload o =
      if object = o then request.payload else memory.payload o := by
  have cleared : ((memory.clear object).setHeader object request.header).payload o =
      if object = o then .zero else memory.payload o := by
    rw [Memory.setHeader, Memory.payload_setHeaderWord, Memory.payload_clear]
  cases request with
  | varsize =>
    rw [place, writeLength, Memory.payload_writeWord, cleared]
    by_cases same : object = o
    · rw [if_pos same, if_pos same, if_pos same, payload]
    · rw [if_neg same, if_neg same, if_neg same]
  | fixed => exact cleared
  | external => exact cleared

def entries (request : Request) (object : Ref) : List FinalizerEntry :=
  (request.finalizer.map fun finalizer => ⟨object, finalizer.queue, finalizer.light⟩).toList

def hasWeakSlot (request : Request) (types : TypeTable) : Bool :=
  (types.get? request.typeId >>= Descriptor.weakOffset).isSome

end Request

namespace Heap

variable {σ : Type}

structure Aside (before after : Heap σ) : Prop where
  types : after.types = before.types
  memory : after.memory = before.memory
  objects : after.objects = before.objects
  external : after.external = before.external
  finalizers : after.finalizers = before.finalizers
  weakHolders : after.weakHolders = before.weakHolders
  heapSize : after.heapSize = before.heapSize
  roots : ∀ o ∈ after.roots.objects, o ∈ before.roots.objects ∨ o ∈ before.live
  journal : ∃ events, after.journal.toList = before.journal.toList ++ events ∧
    grants events = [] ∧ releases events = []

structure Wrote (before after : Heap σ) (object : Ref) (offset : Nat) (bytes : List UInt8) :
    Prop where
  after_eq : after =
    { before with memory := before.memory.writeBytes object offset bytes }
  live : object ∈ before.live
  shape : before.types.SameShape before.memory after.memory object

theorem aside_refl (heap : Heap σ) : heap.Aside heap :=
  ⟨rfl, rfl, rfl, rfl, rfl, rfl, rfl, fun _ => .inl, [], by simp, rfl, rfl⟩

theorem aside_record (heap : Heap σ) (record : LogRecord) :
    heap.Aside (heap.record (.logged record)) :=
  ⟨rfl, rfl, rfl, rfl, rfl, rfl, rfl, fun _ => .inl, [.logged record], by simp [Heap.record], rfl,
    rfl⟩

theorem aside_of_roots {heap : Heap σ} {roots : RootTable}
    (held : ∀ o ∈ roots.objects, o ∈ heap.roots.objects ∨ o ∈ heap.live) :
    heap.Aside { heap with roots } :=
  ⟨rfl, rfl, rfl, rfl, rfl, rfl, rfl, held, [], by simp, rfl, rfl⟩

section Roots

variable {heap after : Heap σ} {id : RootId}

theorem aside_of_addRoot {object : Ref} (live : object ∈ heap.live)
    (run : addRoot object heap = .ok id after) :
    heap.Aside after ∧ after.collecting = heap.collecting := by
  rw [addRoot, modifyGet_apply] at run
  cases run
  refine ⟨aside_of_roots ?_, rfl⟩
  intro o member
  rcases RootTable.mem_objects_of_add member with held | given
  · exact .inl held
  · cases given
    exact .inr live

theorem aside_of_setRoot {target : Option Ref} (live : ∀ o ∈ target.toList, o ∈ heap.live)
    (run : setRoot id target heap = .ok () after) :
    heap.Aside after ∧ after.collecting = heap.collecting := by
  rw [setRoot, bind_eq_ok] at run
  obtain ⟨roots, _, checked, run⟩ := run
  obtain ⟨changes, rfl⟩ := check_eq_ok.mp checked
  cases run
  refine ⟨aside_of_roots ?_, rfl⟩
  intro o member
  rcases RootTable.mem_objects_of_set changes member with held | given
  · exact .inl held
  · exact .inr (live o (Option.mem_toList.mpr given))

theorem aside_of_removeRoot (run : removeRoot id heap = .ok () after) :
    heap.Aside after ∧ after.collecting = heap.collecting := by
  rw [removeRoot, bind_eq_ok] at run
  obtain ⟨roots, _, checked, run⟩ := run
  obtain ⟨changes, rfl⟩ := check_eq_ok.mp checked
  cases run
  refine ⟨aside_of_roots ?_, rfl⟩
  intro o member
  exact .inl (RootTable.mem_objects_of_remove changes member)

end Roots

section Writing

variable {heap after : Heap σ} {object : Ref}

theorem wrote_of_apart {offset : Nat} {bytes : List UInt8} (live : object ∈ heap.live)
    (outside : ∀ descriptor base item lengthOffset,
      heap.types.get? (heap.memory.header object).typeId = some descriptor →
      descriptor.layout = .varsize base item lengthOffset →
        lengthOffset.toNat + 8 ≤ offset ∨ offset + bytes.length ≤ lengthOffset.toNat) :
    heap.Wrote { heap with memory := heap.memory.writeBytes object offset bytes } object offset
      bytes := by
  refine ⟨rfl, live, ?_, ?_⟩
  · exact congrArg Header.typeId (Memory.header_congr (Memory.headerWord_writeBytes ..))
  · intro descriptor known
    rw [Memory.payload_writeBytes, if_pos rfl]
    cases layout : descriptor.layout with
    | fixed size => rfl
    | varsize base item lengthOffset =>
      simp only [Layout.length?, Option.some.injEq]
      exact Payload.readWord_write_of_outside _ _ (outside _ _ _ _ known layout)

theorem descriptorOf_eq_ok {descriptor : Descriptor} :
    heap.descriptorOf object = .ok descriptor ↔
      heap.types.get? (heap.memory.header object).typeId = some descriptor := by
  rw [descriptorOf, TypeTable.descriptorOf, TypeTable.expect]
  cases heap.types.get? (heap.memory.header object).typeId <;> simp

theorem wrote_of_writeWord {offset word : Word} (live : object ∈ heap.live)
    (run : writeWord object offset word heap = .ok () after) :
    heap.Wrote after object offset.toNat word.toBytes := by
  rw [writeWord, bind_eq_ok] at run
  obtain ⟨_, _, checked, run⟩ := run
  obtain ⟨checked, rfl⟩ := check_eq_ok.mp checked
  cases run
  refine wrote_of_apart live ?_
  intro descriptor base item lengthOffset known layout
  have found := descriptorOf_eq_ok.mpr known
  simp only [checkWritable, bind, Except.bind] at checked
  split at checked
  · cases checked
  · split at checked
    · cases checked
    · rw [found] at checked
      simp only [layout] at checked
      have apart := Descriptor.checkDisjoint_ok checked
      rw [Word.length_toBytes]
      exact apart.symm

theorem wrote_of_writePayload {offset length : Word} {bytes : List UInt8}
    (live : object ∈ heap.live) (run : writePayload object offset bytes heap = .ok length after) :
    ∃ start, writablePart object heap = .ok (start, length) ∧
      heap.Wrote after object (start.toNat + offset.toNat)
        (bytes.take (length.toNat - offset.toNat)) := by
  rw [writePayload, bind_eq_ok] at run
  obtain ⟨⟨start, room⟩, _, checked, run⟩ := run
  obtain ⟨checked, rfl⟩ := check_eq_ok.mp checked
  cases run
  refine ⟨start, checked, wrote_of_apart live ?_⟩
  intro descriptor base item lengthOffset known layout
  have found := descriptorOf_eq_ok.mpr known
  simp only [writablePart, bind, Except.bind] at checked
  split at checked
  · cases checked
  · rw [found] at checked
    simp only [layout] at checked
    split at checked
    · cases checked
    · rename_i first sum
      split at checked
      · cases checked
      · cases checked
        rw [Word.add_eq_ok] at sum
        have size : Word.size.toNat = 8 := rfl
        -- the writable part starts behind the length word
        left
        omega

end Writing

variable [RawMemory σ]

structure Granted (before after : Heap σ) (request : Request) (cost : Word) (object : Ref) :
    Prop where
  answer : RawMemory.request cost before.host = (.ok object, after.host)
  collecting : after.collecting = before.collecting
  types : after.types = before.types
  roots : after.roots = before.roots
  headerWord : ∀ o, after.memory.headerWord o =
    if object = o then request.header.encode else before.memory.headerWord o
  payload : ∀ o, after.memory.payload o =
    if object = o then request.payload else before.memory.payload o
  objects : after.objects.toList =
    before.objects.toList ++ if request.isExternal then [] else [object]
  external : after.external.toList =
    before.external.toList ++ if request.isExternal then [object] else []
  finalizers : after.finalizers.toList = before.finalizers.toList ++ request.entries object
  weakHolders : after.weakHolders.toList = before.weakHolders.toList ++
    if request.hasWeakSlot before.types ∧ object ∉ before.weakHolders.toList then [object] else []
  heapSize : after.heapSize.toNat =
    before.heapSize.toNat + if request.isExternal then 0 else cost.toNat
  stats : after.stats = before.stats
  journal : after.journal.toList = before.journal.toList ++ [.requested cost (.ok object)]

structure Cleared (before after : Heap σ) : Prop where
  idle : before.collecting = false
  collecting : after.collecting = false
  host : after.host = before.releasedHost before.live
  types : after.types = before.types
  memory : after.memory = before.memory
  objects : after.objects = #[]
  external : after.external = #[]
  finalizers : after.finalizers = #[]
  weakHolders : after.weakHolders = #[]
  roots : after.roots = {}
  heapSize : after.heapSize = 0
  journal : after.journal.toList = before.journal.toList ++ before.releasings before.live

section Allocation

def blank (heap : Heap σ) (cost : Word) (object : Ref) (host : σ) : Heap σ :=
  { heap with
    host
    journal := heap.journal.push (.requested cost (.ok object))
    memory := heap.memory.clear object }

theorem request_eq_ok {heap after : Heap σ} {cost : Word} {object : Ref}
    (run : Heap.request cost heap = .ok (.ok object) after) :
    ∃ host, RawMemory.request cost heap.host = (.ok object, host) ∧
      after = heap.blank cost object host := by
  rw [Heap.request, modifyGet_apply] at run
  cases answer : RawMemory.request cost heap.host with
  | mk granted host =>
    rw [answer] at run
    cases granted with
    | error error => cases run
    | ok found =>
      cases run
      exact ⟨host, rfl, rfl⟩

theorem aside_of_refused {heap after : Heap σ} {cost : Word} {error : ChunkError}
    (run : Heap.request cost heap = .ok (.error error) after) :
    heap.Aside after ∧ after.collecting = heap.collecting := by
  rw [Heap.request, modifyGet_apply] at run
  cases answer : RawMemory.request cost heap.host with
  | mk granted host =>
    rw [answer] at run
    cases granted with
    | ok found => cases run
    | error found =>
      cases run
      exact ⟨⟨rfl, rfl, rfl, rfl, rfl, rfl, rfl, fun _ => .inl, [.requested cost (.error error)],
        by simp [Heap.record], rfl, rfl⟩, rfl⟩

omit [RawMemory σ] in
theorem addWeakHolder_eq (heap : Heap σ) (object : Ref) :
    heap.addWeakHolder object =
      { heap with weakHolders := (heap.weakHolders.toList ++
          if object ∈ heap.weakHolders.toList then [] else [object]).toArray } := by
  rw [addWeakHolder]
  by_cases member : object ∈ heap.weakHolders
  · simp [member]
  · have pushed : heap.weakHolders.push object = (heap.weakHolders.toList ++ [object]).toArray := by
      rw [← Array.toList_push]
    simp [member, pushed]

omit [RawMemory σ] in
theorem weakStep_eq (request : Request) (object : Ref) (heap : Heap σ) :
    (match heap.types.get? request.typeId with
      | some { weakOffset := some _, .. } => heap.addWeakHolder object
      | _ => heap) =
      { heap with weakHolders := (heap.weakHolders.toList ++
          if request.hasWeakSlot heap.types ∧ object ∉ heap.weakHolders.toList then [object]
          else []).toArray } := by
  cases known : heap.types.get? request.typeId with
  | none => simp [Request.hasWeakSlot, known]
  | some descriptor =>
    obtain ⟨name, layout, weakOffset, trace⟩ := descriptor
    cases weakOffset with
    | none => simp [Request.hasWeakSlot, known]
    | some offset =>
      rw [addWeakHolder_eq]
      by_cases member : object ∈ heap.weakHolders.toList <;>
        simp [Request.hasWeakSlot, known, member]

omit [RawMemory σ] in
theorem furnish_eq (request : Request) (object : Ref) (heap : Heap σ) :
    furnish request object heap =
      { heap with
        memory := request.writeLength object heap.memory
        finalizers := heap.finalizers ++ (request.entries object).toArray
        weakHolders := (heap.weakHolders.toList ++
          if request.hasWeakSlot heap.types ∧ object ∉ heap.weakHolders.toList then [object]
          else []).toArray } := by
  unfold furnish
  cases request with
  | varsize typeId length base item lengthOffset =>
    refine (weakStep_eq (.varsize typeId length base item lengthOffset) object
      { heap with memory := heap.memory.writeWord object lengthOffset length }).trans ?_
    simp [Request.entries, Request.finalizer, Request.writeLength]
  | external typeId size =>
    refine (weakStep_eq (.external typeId size) object heap).trans ?_
    simp [Request.entries, Request.finalizer, Request.writeLength]
  | fixed typeId size finalizer weakSlot =>
    cases finalizer with
    | none =>
      refine (weakStep_eq (.fixed typeId size none weakSlot) object heap).trans ?_
      simp [Request.entries, Request.finalizer, Request.writeLength]
    | some finalizer =>
      obtain ⟨queue, light⟩ := finalizer
      refine (weakStep_eq (.fixed typeId size (some ⟨queue, light⟩) weakSlot) object
        { heap with finalizers := heap.finalizers.push { object, queue, light } }).trans ?_
      simp [Request.entries, Request.finalizer, Request.writeLength]

omit [RawMemory σ] in
theorem enter_eq_ok {heap after : Heap σ} {request : Request} {cost : Word} {object : Ref}
    (run : enter request cost object heap = .ok () after) :
    ∃ heapSize : Word,
      after = { heap with
        memory := heap.memory.setHeader object request.header
        objects := heap.objects ++ (if request.isExternal then [] else [object]).toArray
        external := heap.external ++ (if request.isExternal then [object] else []).toArray
        heapSize } ∧
      heapSize.toNat = heap.heapSize.toNat + if request.isExternal then 0 else cost.toNat := by
  rw [enter] at run
  cases external : request.isExternal with
  | true =>
    simp only [external, if_true] at run
    cases run
    refine ⟨heap.heapSize, ?_, by simp⟩
    simp [Request.header, external]
  | false =>
    simp only [external, Bool.false_eq_true, if_false, modify_bind, bind_eq_ok] at run
    obtain ⟨size, _, checked, run⟩ := run
    obtain ⟨sum, rfl⟩ := check_eq_ok.mp checked
    cases run
    rw [Word.add_eq_ok] at sum
    refine ⟨size, ?_, by simpa using sum.symm⟩
    simp [Request.header, external]

theorem allocateNow_eq_ok {heap after : Heap σ} {request : Request} {cost : Word}
    {answer : Except AllocError Ref} (run : allocateNow request cost heap = .ok answer after) :
    (∃ error, answer = .error error ∧ heap.Aside after ∧ after.collecting = heap.collecting) ∨
      ∃ object, answer = .ok object ∧ heap.Granted after request cost object := by
  rw [allocateNow, bind_eq_ok] at run
  obtain ⟨answered, middle, requested, run⟩ := run
  cases answered with
  | error error =>
    cases run
    exact .inl ⟨_, rfl, aside_of_refused requested⟩
  | ok object =>
    right
    obtain ⟨host, granted, rfl⟩ := request_eq_ok requested
    simp only [bind_eq_ok] at run
    obtain ⟨_, entered, entering, _, _, furnishing, run⟩ := run
    cases run
    cases furnishing
    obtain ⟨heapSize, rfl, size⟩ := enter_eq_ok entering
    refine ⟨object, rfl, ?_⟩
    rw [furnish_eq]
    exact {
      answer := granted
      collecting := rfl
      types := rfl
      roots := rfl
      headerWord := fun o => request.headerWord_place object o heap.memory
      payload := fun o => request.payload_place object o heap.memory
      objects := by simp [blank]
      external := by simp [blank]
      finalizers := by simp [blank]
      weakHolders := rfl
      heapSize := size
      stats := rfl
      journal := by simp [blank] }

theorem granted_of_allocateNow {heap after : Heap σ} {request : Request} {cost : Word}
    {object : Ref} (run : allocateNow request cost heap = .ok (.ok object) after) :
    heap.Granted after request cost object := by
  rcases allocateNow_eq_ok run with ⟨error, refused, _⟩ | ⟨other, same, granted⟩
  · cases refused
  · cases same
    exact granted

end Allocation

theorem cleared_of_reset {heap after : Heap σ}
    (sized : ∀ o ∈ heap.live, ∃ cost, heap.types.allocationCost heap.memory o = .ok cost)
    (run : reset heap = .ok () after) : heap.Cleared after := by
  rw [reset, get_bind] at run
  cases collecting : heap.collecting with
  | true =>
    simp only [collecting] at run
    cases run
  | false =>
    simp only [collecting, Bool.false_eq_true, if_false] at run
    have ended := (bind_of_ok (releaseAll_eq_ok heap sized)).symm.trans run
    cases ended
    exact ⟨collecting, rfl, rfl, rfl, rfl, rfl, rfl, rfl, rfl, rfl, rfl, by simp [releasing]⟩

end Heap

end Reclaim
