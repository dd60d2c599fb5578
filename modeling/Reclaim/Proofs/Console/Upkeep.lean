import Reclaim.Console.Session
import Reclaim.Proofs.Console.Slots
import Reclaim.Proofs.Heap.FreshMemory
import Reclaim.Proofs.Heap.Roots
import Reclaim.Proofs.Heap.Setup
import Reclaim.Proofs.Run.RawMemory

namespace Reclaim

namespace Console

variable {μ : Type} [RawMemory μ] {first : μ}

theorem Reports.request_eq {size : Word} {reports after : Reports μ} {answer : Except ChunkError Ref}
    (asked : RawMemory.request size reports = (answer, after)) :
    RawMemory.request size reports.memory = (answer, after.memory) := by
  cases granted : RawMemory.request size reports.memory with
  | mk found memory =>
    have same : RawMemory.request size reports = (found, { reports with memory }) := by
      simp only [RawMemory.request, granted]
    rw [same] at asked
    cases asked
    rfl

theorem Reports.eq_of_request {size : Word} {reports after : Reports μ}
    {answer : Except ChunkError Ref} (asked : RawMemory.request size reports = (answer, after)) :
    after = { reports with memory := after.memory } := by
  cases asked
  rfl

/-- The heap of a session: it is consistent, all its objects are in the registry, its slots and
    roots hold objects of the registry, and its raw memory has been treated as it should be. -/
structure Upright (first : μ) (heap : Heap (Reports μ)) : Prop where
  consistent : heap.Consistent
  accounted : heap.Accounted
  types : heap.types = Kind.types
  refs : heap.RefsLive Kind.slots
  scanners : heap.scanners = #[]
  external : heap.external = #[]
  queued : ∀ entry ∈ heap.finalizers.toList, entry.queue.index < 2
  roots : heap.roots.Sound
  memory : RawMemory.Came first heap.host.memory heap.ledger.held

namespace Upright

variable {heap after : Heap (Reports μ)}

theorem live_eq (upright : Upright first heap) : heap.live = heap.objects.toList := by
  rw [Heap.live, upright.external]
  exact List.append_nil _

theorem mem_of_rooted (upright : Upright first heap) {object : Ref}
    (member : object ∈ heap.roots.objects) : object ∈ heap.objects.toList := by
  rw [← upright.live_eq]
  exact upright.consistent.roots_live object member

theorem slotted (upright : Upright first heap) : heap.types.Slotted Kind.slots :=
  upright.types ▸ Kind.slotted_types

theorem traceable (upright : Upright first heap) : heap.Traceable := by
  refine upright.refs.traceable upright.slotted upright.consistent ?_
  rw [upright.scanners]
  exact nofun

theorem create (growth : Growth) (first : μ) :
    Upright first { growth, types := Kind.types, host := { memory := first } } where
  consistent := Heap.consistent_create Kind.valid_types growth _
  accounted := Heap.accounted_create Kind.types growth _
  types := rfl
  refs := fun _ member => nomatch member
  scanners := rfl
  external := rfl
  queued := nofun
  roots := RootTable.sound_empty
  memory := .start

theorem of_aside (upright : Upright first heap) (h : heap.Aside after)
    (scanners : after.scanners = heap.scanners) (roots : after.roots.Sound)
    (memory : RawMemory.Came first after.host.memory heap.ledger.held) : Upright first after where
  consistent := h.consistent upright.consistent
  accounted := h.accounted upright.accounted
  types := h.types.trans upright.types
  refs := upright.refs.aside h
  scanners := scanners.trans upright.scanners
  external := h.external.trans upright.external
  queued := by
    rw [h.finalizers]
    exact upright.queued
  roots := roots
  memory := by
    rw [h.ledger_eq]
    exact memory

theorem memory_releasedHost (heap : Heap (Reports μ)) (objects : List Ref) :
    (heap.releasedHost objects).memory =
      RawMemory.releaseBlocks (heap.blocks objects) heap.host.memory := by
  rw [Heap.releasedHost, RawMemory.releaseBlocks, Heap.blocks, List.foldl_map]
  generalize heap.host = host
  induction objects generalizing host with
  | nil => rfl
  | cons object rest ih => exact ih _

theorem reclaimed (upright : Upright first heap) {cycle : Cycle}
    (h : heap.Reclaimed cycle after) : Upright first after where
  consistent := h.consistent upright.consistent
  accounted := h.accounted upright.accounted upright.consistent
  types := h.types.trans upright.types
  refs := upright.refs.reclaimed upright.slotted upright.consistent h
  scanners := h.scanners.trans upright.scanners
  external := h.external.trans upright.external
  queued := fun entry member => upright.queued entry (h.divides.kept_sublist.subset member)
  roots := h.roots ▸ upright.roots
  memory := by
    have once := upright.consistent.live_nodup
    have freed := (List.nodup_append.mp once).1.sublist heap.unreached_sublist
    have given_back := upright.memory.releaseBlocks (upright.accounted.held_nodup once)
      (List.Nodup.of_map Prod.fst (by rwa [Heap.map_fst_blocks]))
      (upright.accounted.mem_held_blocks fun o member =>
        Heap.mem_live_of_objects (heap.unreached_sublist.subset member))
    rw [h.host, memory_releasedHost, h.ledger_eq upright.accounted upright.consistent,
      ← upright.accounted.filter_blocks]
    exact given_back

theorem granted (upright : Upright first heap) {request : Request} {cost : Word} {object : Ref}
    {descriptor : Descriptor} (h : heap.Granted after request cost object)
    (fits : heap.ledger.Fits (object, cost))
    (admitted : request.Admitted heap.types 2 cost descriptor)
    (internal : request.isExternal = false) (scanners : after.scanners = heap.scanners) :
    Upright first after := by
  obtain ⟨_, _, total⟩ := admitted.size
  have large := le_of_allocationCost? total
  have fresh := upright.accounted.fresh_of_fits fits (by omega)
  exact {
    consistent := h.consistent upright.consistent fresh admitted
    accounted := h.accounted upright.accounted fresh fits admitted
    types := h.types.trans upright.types
    refs := upright.refs.granted upright.slotted h fresh admitted upright.consistent.types_valid
    scanners := scanners.trans upright.scanners
    external := by
      apply Array.toList_inj.mp
      rw [h.external, internal, upright.external]
      rfl
    queued := by
      intro entry member
      rw [h.finalizers, List.mem_append] at member
      rcases member with old | new
      · exact upright.queued entry old
      · obtain ⟨finalizer, wanted, rfl⟩ := Request.mem_entries.mp new
        exact admitted.queue finalizer wanted
    roots := h.roots ▸ upright.roots
    memory := by
      rw [h.ledger_eq]
      exact upright.memory.granted (Reports.request_eq h.answer) }

end Upright

section Access

variable {heap : Heap (Reports μ)} {object : Ref}

theorem Upright.readable (upright : Upright first heap) (member : object ∈ heap.objects.toList) :
    ∃ descriptor size, heap.Readable object descriptor size :=
  upright.consistent.readable (Heap.mem_live_of_objects member)

theorem exists_writeRef (upright : Upright first heap) (member : object ∈ heap.objects.toList)
    {offset : Word}
    (slot : offset.toNat ∈ (Kind.of heap object).offsets (Kind.lengthOf heap object))
    {target : Option Ref} (live : ∀ o, target = some o → o ∈ heap.objects.toList) :
    ∃ after, Heap.writeRef object offset target heap = .ok () after ∧ Upright first after ∧
      heap.Wrote after object offset.toNat (Ref.slotWord target).toBytes := by
  have valid := upright.consistent.types_valid
  obtain ⟨descriptor, size, readable⟩ := upright.readable member
  have inside := Kind.mem_slotsOf upright.types readable slot
  -- a slot never overlaps the length word, which cannot be written
  have writable := readable.checkWritable_eq_ok valid
    (Kind.offset_inside upright.types readable slot) fun _ _ _ layout =>
      TypeTable.length_apart valid upright.slotted inside readable.known layout
  obtain ⟨after, run⟩ : ∃ after,
      Heap.writeWord object offset (Ref.slotWord target) heap = .ok () after := by
    rw [Heap.writeWord, bind_of_ok (Heap.check_of_ok writable)]
    exact ⟨_, rfl⟩
  have wrote := Heap.wrote_of_writeWord (Heap.mem_live_of_objects member) run
  have refs := upright.refs.stored upright.slotted wrote inside fun o same =>
    Heap.mem_live_of_objects (live o same)
  have consistent := wrote.consistent upright.consistent
  have accounted := wrote.accounted upright.accounted
  refine ⟨after, run, ?_, wrote⟩
  rw [wrote.after_eq] at refs consistent accounted ⊢
  exact { upright with refs, consistent, accounted }

theorem readRef_eq_ok (upright : Upright first heap) (member : object ∈ heap.objects.toList)
    {offset : Word}
    (slot : offset.toNat ∈ (Kind.of heap object).offsets (Kind.lengthOf heap object)) :
    heap.readRef object offset =
      .ok (Ref.ofWord? ((heap.memory.payload object).readWord offset.toNat)) := by
  obtain ⟨descriptor, size, readable⟩ := upright.readable member
  simp only [Heap.readRef, readable.view_eq_ok, bind, Except.bind]
  exact View.readRef_eq_ok (Kind.offset_inside upright.types readable slot)

theorem Upright.target_mem (upright : Upright first heap) (member : object ∈ heap.objects.toList)
    {offset : Nat} (slot : offset ∈ (Kind.of heap object).offsets (Kind.lengthOf heap object))
    {target : Ref}
    (held : Ref.ofWord? ((heap.memory.payload object).readWord offset) = some target) :
    target ∈ heap.objects.toList := by
  obtain ⟨descriptor, size, readable⟩ := upright.readable member
  have inside := Kind.offset_inside upright.types readable slot
  have bound : size.toNat < UInt64.size := size.toNat_lt
  obtain ⟨word, rfl⟩ := Word.exists_toNat_eq (n := offset) (by omega)
  have listed := Kind.mem_slotsOf upright.types readable slot
  rw [← upright.live_eq]
  exact upright.refs object (Heap.mem_live_of_objects member) word listed target held

theorem Upright.slot_held (upright : Upright first heap) (member : object ∈ heap.objects.toList)
    {offset : Nat} (slot : offset ∈ (Kind.of heap object).offsets (Kind.lengthOf heap object)) :
    (heap.memory.payload object).readWord offset = 0 ∨ ∃ target ∈ heap.objects.toList,
      (heap.memory.payload object).readWord offset = target.word := by
  cases held : Ref.ofWord? ((heap.memory.payload object).readWord offset) with
  | none => exact .inl (Ref.ofWord?_eq_none held)
  | some target =>
    exact .inr ⟨target, upright.target_mem member slot held, Ref.eq_of_ofWord?_eq_some held⟩

theorem Upright.with_roots (upright : Upright first heap) {roots : RootTable} (sound : roots.Sound)
    (held : ∀ o ∈ roots.objects, o ∈ heap.roots.objects ∨ o ∈ heap.objects.toList) :
    Upright first { heap with roots } := by
  refine upright.of_aside (Heap.aside_of_roots ?_) rfl sound upright.memory
  rw [upright.live_eq]
  exact held

theorem exists_addRoot (upright : Upright first heap) (member : object ∈ heap.objects.toList) :
    ∃ id roots, Heap.addRoot object heap = .ok id { heap with roots } ∧
      Upright first { heap with roots } ∧ heap.roots.Added roots id object := by
  refine ⟨_, _, rfl, upright.with_roots ?_ ?_, RootTable.added_of_add upright.roots object⟩
  · exact (RootTable.added_of_add upright.roots object).sound
  · intro o held
    rcases RootTable.mem_objects_of_add held with old | given
    · exact .inl old
    · cases given
      exact .inr member

variable {id : RootId} {held : Ref}

theorem exists_setRoot (upright : Upright first heap) (holds : heap.roots.Holds id held)
    (member : object ∈ heap.objects.toList) :
    ∃ roots, Heap.setRoot id (some object) heap = .ok () { heap with roots } ∧
      Upright first { heap with roots } ∧ roots.Holds id object ∧
      ∀ other held, other ≠ id → heap.roots.Holds other held → roots.Holds other held := by
  obtain ⟨roots, changed, sound, given, kept⟩ := RootTable.exists_set upright.roots holds object
  refine ⟨roots, ?_, upright.with_roots sound ?_, given, kept⟩
  · rw [Heap.setRoot, bind_of_ok (Heap.check_of_ok changed)]
    rfl
  · intro o held
    rcases RootTable.mem_objects_of_set changed held with old | given
    · exact .inl old
    · cases given
      exact .inr member

theorem exists_removeRoot (upright : Upright first heap) (holds : heap.roots.Holds id held) :
    ∃ roots, Heap.removeRoot id heap = .ok () { heap with roots } ∧
      Upright first { heap with roots } ∧
      ∀ other held, other ≠ id → heap.roots.Holds other held → roots.Holds other held := by
  obtain ⟨roots, changed, sound, kept⟩ := RootTable.exists_remove upright.roots holds
  refine ⟨roots, ?_, upright.with_roots sound ?_, kept⟩
  · rw [Heap.removeRoot, bind_of_ok (Heap.check_of_ok changed)]
    rfl
  · exact fun o held => .inl (RootTable.mem_objects_of_remove changed held)

end Access

end Console

end Reclaim
