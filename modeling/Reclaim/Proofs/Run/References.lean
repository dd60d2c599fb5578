import Reclaim.Proofs.Heap.Slots
import Reclaim.Proofs.Run.Execution

namespace Reclaim

variable {σ : Type}

def Payload.Untouched (slot start length : Nat) : Prop :=
  ∀ i, slot ≤ i → i < slot + 8 → i < start ∨ start + length ≤ i

instance (slot start length : Nat) : Decidable (Payload.Untouched slot start length) :=
  decidable_of_iff (∀ i : Fin 8, slot + i < start ∨ start + length ≤ slot + i) (by
    refine ⟨fun h i first last => ?_, fun h i => h _ (by omega) (by omega)⟩
    obtain ⟨k, rfl⟩ := Nat.exists_eq_add_of_le first
    exact h ⟨k, by omega⟩)

theorem Payload.readWord_write_of_untouched (payload : Payload) {bytes : List UInt8}
    {slot start : Nat} (untouched : Untouched slot start bytes.length) :
    (payload.write start bytes).readWord slot = payload.readWord slot := by
  apply readWord_congr
  intro i inside
  apply byte_write_of_outside
  exact untouched _ (Nat.le_add_right _ _) (Nat.add_lt_add_left inside _)

/-- What the embedder promises about an operation: it passes live objects, stores references in
    slots of the object, and writes no byte of a slot in another way. -/
structure Operation.Careful (slots : SlotMap) (heap : Heap σ) (operation : Operation) : Prop where
  operands_live : ∀ o ∈ operation.operands, o ∈ heap.live
  stores : ∀ object offset target, operation = .writeRef object offset target →
    offset ∈ heap.types.slotsOf slots heap.memory object
  untouched : (∀ object offset target, operation ≠ .writeRef object offset target) →
    ∀ object start bytes, operation.Writes heap object start bytes →
      ∀ slot ∈ heap.types.slotsOf slots heap.memory object,
        Payload.Untouched slot.toNat start bytes.length

namespace Operation

def writing? (heap : Heap σ) : Operation → Option (Ref × Nat × List UInt8)
  | writeWord object offset word => some (object, offset.toNat, word.toBytes)
  | writeRef object offset target => some (object, offset.toNat, (Ref.slotWord target).toBytes)
  | writePayload object offset payload =>
    match heap.writablePart object with
    | .ok (first, length) => some (object, first.toNat + offset.toNat,
        payload.take (length.toNat - offset.toNat))
    | .error _ => none
  | _ => none

theorem writes_iff {heap : Heap σ} {operation : Operation} {object : Ref} {start : Nat}
    {bytes : List UInt8} : operation.Writes heap object start bytes ↔
      operation.writing? heap = some (object, start, bytes) := by
  cases operation with
  | writeWord | writeRef => simp [Writes, writing?, eq_comm]
  | writePayload target offset payload =>
    cases writable : heap.writablePart target with
    | ok part =>
      obtain ⟨first, length⟩ := part
      simp [Writes, writing?, writable, eq_comm]
    | error fault => simp [Writes, writing?, writable]
  | allocate | addRoot | setRoot | removeRoot | collect | reset => simp [Writes, writing?]

def SparesSlots (slots : SlotMap) (heap : Heap σ) (writing : Ref × Nat × List UInt8) : Prop :=
  ∀ slot ∈ heap.types.slotsOf slots heap.memory writing.1,
    Payload.Untouched slot.toNat writing.2.1 writing.2.2.length

-- named, since an instance that is searched for could try all words
instance (slots : SlotMap) (heap : Heap σ) : DecidablePred (SparesSlots slots heap) :=
  fun _ => List.decidableBAll _ _

def InPlace (slots : SlotMap) (heap : Heap σ) : Operation → Prop
  | writeRef object offset _ => offset ∈ heap.types.slotsOf slots heap.memory object
  | operation => ∀ writing ∈ operation.writing? heap, SparesSlots slots heap writing

theorem careful_iff {slots : SlotMap} {heap : Heap σ} {operation : Operation} :
    operation.Careful slots heap ↔
      (∀ o ∈ operation.operands, o ∈ heap.live) ∧ operation.InPlace slots heap := by
  constructor
  · rintro ⟨live, stores, untouched⟩
    refine ⟨live, ?_⟩
    cases operation with
    | writeRef object offset target => exact stores object offset target rfl
    | allocate | addRoot | setRoot | removeRoot | collect | reset | writeWord | writePayload =>
      rintro ⟨o, start, bytes⟩ written
      exact untouched nofun o start bytes (writes_iff.mpr written)
  · rintro ⟨live, place⟩
    refine ⟨live, ?_, ?_⟩
    · rintro object offset target rfl
      exact place
    · intro other o start bytes writes
      have written := writes_iff.mp writes
      cases operation with
      | writeRef object offset target => exact absurd rfl (other _ _ _)
      | allocate | addRoot | setRoot | removeRoot | collect | reset | writeWord | writePayload =>
        exact place (o, start, bytes) written

instance (slots : SlotMap) (heap : Heap σ) (operation : Operation) :
    Decidable (operation.InPlace slots heap) :=
  match operation with
  | writeRef object offset _ =>
    inferInstanceAs (Decidable (offset ∈ heap.types.slotsOf slots heap.memory object))
  | allocate _ | addRoot _ | setRoot _ _ | removeRoot _ | collect | reset | writeWord _ _ _
  | writePayload _ _ _ =>
    inferInstanceAs (Decidable (∀ writing ∈ writing? heap _, SparesSlots slots heap writing))

instance (slots : SlotMap) (heap : Heap σ) (operation : Operation) :
    Decidable (operation.Careful slots heap) :=
  decidable_of_iff' _ careful_iff

end Operation

variable [RawMemory σ]

/-- What the embedder promises whenever code of its goes on, and its raw memory when it grants a
    block. -/
def Code.Careful (slots : SlotMap) (heap : Heap σ) : Code σ → Prop
  | .run (.call operation _) => operation.Careful slots heap
  | .run (.poke _ _) => False
  | .run _ => True
  | .allocate _ cost _ => ∀ object host, RawMemory.request cost heap.host = (.ok object, host) →
    heap.ledger.Fits (object, cost)
  | .collect _ => heap.collecting = false →
    ∀ scan ∈ heap.scanners.toList, ∀ o ∈ scan heap.host, o ∈ heap.live

def Point.Careful (slots : SlotMap) (point : Point σ) : Prop :=
  match point.stage with
  | .code _ code => code.Careful slots point.collector.heap
  | .between _ => True

instance (slots : SlotMap) (heap : Heap σ) (code : Code σ) : Decidable (code.Careful slots heap) :=
  match code with
  | .run (.call operation _) => inferInstanceAs (Decidable (operation.Careful slots heap))
  | .run (.poke _ _) => .isFalse id
  | .run .done | .run (.fail _) | .run (.inspect _) | .run (.addQueue _ _)
  | .run (.addScanner _ _) | .run (.host _ _) => .isTrue trivial
  | .allocate _ cost _ =>
    match answer : RawMemory.request cost heap.host with
    | (.ok object, _) => decidable_of_iff (heap.ledger.Fits (object, cost)) (by
        refine ⟨fun fits _ _ granted => ?_, fun careful => careful _ _ answer⟩
        cases answer.symm.trans granted
        exact fits)
    | (.error _, _) => .isTrue fun _ _ granted => nomatch answer.symm.trans granted
  | .collect _ => inferInstanceAs (Decidable (_ → ∀ scan ∈ heap.scanners.toList, ∀ o ∈ scan heap.host,
      o ∈ heap.live))

instance (slots : SlotMap) : DecidablePred (Point.Careful (σ := σ) slots)
  | ⟨collector, .code _ code, _⟩ => inferInstanceAs (Decidable (code.Careful slots collector.heap))
  | ⟨_, .between _, _⟩ => .isTrue trivial

namespace Heap

variable {slots : SlotMap} {heap before after : Heap σ}

omit [RawMemory σ] in
def RefsLive (slots : SlotMap) (heap : Heap σ) : Prop :=
  ∀ o ∈ heap.live, ∀ slot ∈ heap.types.slotsOf slots heap.memory o, ∀ target,
    TypeTable.target? heap.memory o slot = some target → target ∈ heap.live

omit [RawMemory σ] in
theorem RefsLive.traceable (refs : heap.RefsLive slots) (slotted : heap.types.Slotted slots)
    (consistent : heap.Consistent)
    (scanners : ∀ scan ∈ heap.scanners.toList, ∀ o ∈ scan heap.host, o ∈ heap.live) :
    heap.Traceable where
  scanners_live := scanners
  children_live := by
    intro o member
    obtain ⟨cost, sized⟩ := consistent.sized o member
    obtain ⟨children, reported, same⟩ := TypeTable.children_of_slotted slotted sized
    refine ⟨children, reported, ?_⟩
    intro child listed
    obtain ⟨slot, traced, held⟩ := (same child).mp listed
    exact refs o member slot (TypeTable.mem_slotsOf.mpr (.inl traced)) child held

omit [RawMemory σ] in
theorem RefsLive.aside (refs : before.RefsLive slots) (h : before.Aside after) :
    after.RefsLive slots := by
  intro o member slot inside target held
  rw [h.live_eq] at member ⊢
  rw [h.types, h.memory] at inside
  rw [h.memory] at held
  exact refs o member slot inside target held

section Wrote

variable {object : Ref} {start : Nat} {bytes : List UInt8}

omit [RawMemory σ] in
theorem RefsLive.wrote (refs : before.RefsLive slots) (h : before.Wrote after object start bytes)
    (own : ∀ slot ∈ before.types.slotsOf slots before.memory object, ∀ target,
      TypeTable.target? after.memory object slot = some target → target ∈ before.live) :
    after.RefsLive slots := by
  have types : after.types = before.types := by rw [h.after_eq]
  intro o member slot inside target held
  rw [h.live_eq] at member ⊢
  rw [types, TypeTable.slotsOf_congr (h.sameShape o)] at inside
  by_cases same : object = o
  · subst same
    exact own slot inside target held
  · rw [TypeTable.target?, h.payload, if_neg same] at held
    exact refs o member slot inside target held

omit [RawMemory σ] in
theorem RefsLive.stored (refs : before.RefsLive slots) (slotted : before.types.Slotted slots)
    {offset : Word} {stored : Option Ref}
    (h : before.Wrote after object offset.toNat (Ref.slotWord stored).toBytes)
    (inside : offset ∈ before.types.slotsOf slots before.memory object)
    (live : ∀ o, stored = some o → o ∈ before.live) : after.RefsLive slots := by
  refine refs.wrote h ?_
  intro slot member target held
  rw [TypeTable.target?, h.payload, if_pos rfl] at held
  rcases TypeTable.eq_or_apart slotted inside member with rfl | apart
  · have written := Payload.readWord_writeWord_self (before.memory.payload object) offset.toNat
      (Ref.slotWord stored)
    rw [Payload.writeWord] at written
    rw [written, Ref.ofWord?_slotWord] at held
    exact live target held
  · have kept := Payload.readWord_writeWord_of_apart (before.memory.payload object)
      (Ref.slotWord stored) apart
    rw [Payload.writeWord] at kept
    rw [kept] at held
    exact refs object h.live slot member target held

omit [RawMemory σ] in
theorem RefsLive.untouched (refs : before.RefsLive slots)
    (h : before.Wrote after object start bytes)
    (untouched : ∀ slot ∈ before.types.slotsOf slots before.memory object,
      Payload.Untouched slot.toNat start bytes.length) : after.RefsLive slots := by
  refine refs.wrote h ?_
  intro slot member target held
  rw [TypeTable.target?, h.payload, if_pos rfl,
    Payload.readWord_write_of_untouched _ (untouched slot member)] at held
  exact refs object h.live slot member target held

end Wrote

theorem Granted.target?_eq_none (slotted : before.types.Slotted slots) {request : Request}
    {cost : Word} {object : Ref} (h : before.Granted after request cost object) {queues : Nat}
    {descriptor : Descriptor} (admitted : request.Admitted before.types queues cost descriptor)
    (valid : before.types.Valid) {slot : Word}
    (inside : slot ∈ before.types.slotsOf slots after.memory object) :
    TypeTable.target? after.memory object slot = none := by
  have empty : (request.payload).readWord slot.toNat = 0 := by
    cases request with
    | fixed => exact Payload.readWord_zero _
    | external => exact Payload.readWord_zero _
    | varsize typeId length base item lengthOffset =>
      have known := admitted.known
      rw [← h.typeId] at known
      have apart := TypeTable.length_apart valid slotted inside known admitted.layout
      exact (Payload.readWord_writeWord_of_apart _ length apart.symm).trans
        (Payload.readWord_zero _)
  rw [TypeTable.target?, h.payload, if_pos rfl, empty]
  rfl

theorem RefsLive.granted (refs : before.RefsLive slots) (slotted : before.types.Slotted slots)
    {request : Request} {cost : Word} {object : Ref} (h : before.Granted after request cost object)
    (fresh : object ∉ before.live) {queues : Nat} {descriptor : Descriptor}
    (admitted : request.Admitted before.types queues cost descriptor)
    (valid : before.types.Valid) : after.RefsLive slots := by
  intro o member slot inside target held
  rw [h.types] at inside
  rcases (h.mem_live o).mp member with old | rfl
  · have other : object ≠ o := fun same => fresh (same ▸ old)
    rw [TypeTable.slotsOf_congr (h.sameShape other)] at inside
    rw [TypeTable.target?, h.payload, if_neg other] at held
    exact (h.mem_live target).mpr (.inl (refs o old slot inside target held))
  · rw [h.target?_eq_none slotted admitted valid inside] at held
    cases held

theorem RefsLive.cleared (h : before.Cleared after) : after.RefsLive slots := by
  intro o member
  rw [live, h.objects, h.external] at member
  cases member

omit [RawMemory σ] in
theorem Retained.target (slotted : heap.types.Slotted slots) (consistent : heap.Consistent)
    {o target : Ref} {slot : Word} (live : o ∈ heap.live) (kept : heap.Retained o)
    (traced : slot ∈ heap.types.tracedSlots slots heap.memory o)
    (held : TypeTable.target? heap.memory o slot = some target) : heap.Retained target := by
  obtain ⟨cost, sized⟩ := consistent.sized o live
  obtain ⟨children, reported, same⟩ := TypeTable.children_of_slotted slotted sized
  exact kept.child reported ((same target).mpr ⟨slot, traced, held⟩)

theorem Reclaimed.held_before (slotted : before.types.Slotted slots) {cycle : Cycle}
    (h : before.Reclaimed cycle after) {o target : Ref} {slot : Word}
    (inside : slot ∈ before.types.slotsOf slots before.memory o)
    (held : TypeTable.target? after.memory o slot = some target) :
    TypeTable.target? before.memory o slot = some target ∧
      (o ∈ before.bereft → before.types.weakSlot? before.memory o ≠ some slot) := by
  by_cases emptied : o ∈ before.bereft
  · obtain ⟨weak, found, payload⟩ := h.payload_bereft o emptied
    have weak_inside : weak ∈ before.types.slotsOf slots before.memory o :=
      TypeTable.mem_slotsOf.mpr (.inr found)
    rw [TypeTable.target?, payload] at held
    rcases TypeTable.eq_or_apart slotted weak_inside inside with rfl | apart
    · rw [Payload.readWord_writeWord_self] at held
      cases held
    · rw [Payload.readWord_writeWord_of_apart _ _ apart] at held
      refine ⟨held, ?_⟩
      intro _ same
      rw [found] at same
      cases same
      unfold Payload.Apart at apart
      omega
  · rw [TypeTable.target?, h.payload_kept o emptied] at held
    exact ⟨held, fun member => absurd member emptied⟩

/-- A collection leaves nothing in a slot of an object that it keeps but what it keeps as well: it
    has followed the traced slots and emptied the weak ones. -/
theorem RefsLive.reclaimed (refs : before.RefsLive slots) (slotted : before.types.Slotted slots)
    (consistent : before.Consistent) {cycle : Cycle} (h : before.Reclaimed cycle after) :
    after.RefsLive slots := by
  intro o member slot inside target held
  obtain ⟨live, kept⟩ := h.mem_live.mp member
  rw [h.types, TypeTable.slotsOf_congr (h.sameShape consistent.types_valid o)] at inside
  obtain ⟨held_before, unemptied⟩ := h.held_before slotted inside held
  have target_live := refs o live slot inside target held_before
  refine h.mem_live.mpr ⟨target_live, ?_⟩
  rcases TypeTable.mem_slotsOf.mp inside with traced | weak
  · exact kept.target slotted consistent live traced held_before
  · by_contra lost
    have holder : o ∈ before.weakHolders.toList :=
      (consistent.weak_iff o).mpr ⟨live, by rw [weak]; rfl⟩
    have weak_target : before.types.weakTarget? before.memory o = some target := by
      rw [TypeTable.weakTarget?, weak]
      exact held_before
    have bereft : o ∈ before.bereft := mem_bereft.mpr
      ⟨holder, kept, target, weak_target, lost, consistent.unmarked target target_live⟩
    exact unemptied bereft weak

end Heap

section Runs

variable {slots : SlotMap}

/-- Whoever is careful keeps the contract of the collector. -/
theorem Code.Careful.lawful {heap : Heap σ} {code : Code σ} (careful : code.Careful slots heap)
    (consistent : heap.Consistent) (slotted : heap.types.Slotted slots)
    (refs : heap.RefsLive slots) : code.Lawful heap := by
  cases code with
  | run program =>
    cases program with
    | call operation next => exact careful.operands_live
    | poke update next => exact careful
    | done | fail | inspect | addQueue | addScanner | host => trivial
  | allocate request cost next => exact careful
  | collect next =>
    intro idle
    exact refs.traceable slotted consistent (careful idle)

theorem Point.Careful.lawful {point : Point σ} (careful : point.Careful slots)
    (consistent : point.collector.heap.Consistent)
    (slotted : point.collector.heap.types.Slotted slots)
    (refs : point.collector.heap.RefsLive slots) : point.Lawful := by
  obtain ⟨collector, stage, history⟩ := point
  cases stage with
  | code place code => exact Code.Careful.lawful careful consistent slotted refs
  | between collection => trivial

theorem Effect.refsLive {before : Collector σ} {code : Code σ} {new : List (Happening σ)}
    {after : Heap σ} (effect : Effect before code new after)
    (careful : code.Careful slots before.heap) (consistent : before.heap.Consistent)
    (accounted : before.heap.Accounted) (slotted : before.heap.types.Slotted slots)
    (refs : before.heap.RefsLive slots) : after.RefsLive slots := by
  cases effect with
  | aside h => exact refs.aside h
  | @wrote _ operation next object start bytes called writes h =>
    subst called
    by_cases stores : ∃ object offset target, operation = .writeRef object offset target
    · obtain ⟨holder, offset, target, rfl⟩ := stores
      obtain ⟨rfl, rfl, rfl⟩ := writes
      refine refs.stored slotted h (careful.stores _ _ _ rfl) ?_
      rintro o rfl
      exact careful.operands_live o (List.mem_cons_of_mem _ (Option.mem_toList.mpr rfl))
    · refine refs.untouched h (careful.untouched ?_ object start bytes writes)
      intro holder offset target same
      exact stores ⟨holder, offset, target, same⟩
  | granted admitted fits h =>
    exact refs.granted slotted h (fresh_of_fits accounted admitted fits) admitted
      consistent.types_valid
  | cleared h => exact .cleared h

structure Tidy (slots : SlotMap) (point : Point σ) : Prop where
  sound : Sound point
  slotted : point.collector.heap.types.Slotted slots
  refs : point.collector.heap.RefsLive slots

omit [RawMemory σ] in
theorem Tidy.of_aside {point next : Point σ} (tidy : Tidy slots point) (sound : Sound next)
    (h : point.collector.heap.Aside next.collector.heap) : Tidy slots next where
  sound := sound
  slotted := h.types ▸ tidy.slotted
  refs := tidy.refs.aside h

theorem Tidy.step {point next : Point σ} (tidy : Tidy slots point) (careful : point.Careful slots)
    (step : Step point next) : Tidy slots next := by
  obtain ⟨sound, slotted, refs⟩ := tidy
  have lawful := careful.lawful sound.consistent slotted refs
  have sound' := sound.step lawful step
  have tidy : Tidy slots point := ⟨sound, slotted, refs⟩
  cases step with
  | @code before after code rest new step place history =>
    have member : code ∈ (Stage.code place code).codes := by
      cases place <;> exact List.mem_cons_self
    obtain ⟨effect, _⟩ := step.effect sound.consistent lawful (sound.pending code member)
    exact {
      sound := sound'
      slotted := effect.types_eq ▸ slotted
      refs := effect.refsLive careful sound.consistent sound.accounted slotted refs }
  | nested busy next history => exact tidy.of_aside sound' (Heap.aside_record _ _)
  | reclaim idle reclaimed next history =>
    have h := Heap.reclaimed_of_ok sound.consistent (lawful idle) reclaimed
    exact {
      sound := sound'
      slotted := h.types ▸ slotted
      -- nothing is freed but in a sweep, and that has emptied the slots of what it freed
      refs := refs.reclaimed slotted sound.consistent h }
  | call found cycle waiting caller history => exact tidy.of_aside sound' (Heap.aside_record _ _)
  | «return» collector entry collection history =>
    exact tidy.of_aside sound' ⟨rfl, rfl, rfl, rfl, rfl, rfl, rfl, fun _ => .inl, [], by simp, rfl,
      rfl⟩
  | finish finished caller history => exact tidy.of_aside sound' (Heap.finish_eq_ok finished).1

theorem Tidy.of_runs {point last : Point σ} (tidy : Tidy slots point)
    (run : Runs (Point.Careful slots) point last) : Tidy slots last := by
  induction run with
  | refl => exact tidy
  | tail _ step ih => exact ih.step step.1 step.2

omit [RawMemory σ] in
theorem Tidy.start {types : TypeTable} (valid : types.Valid) (slotted : types.Slotted slots)
    (growth : Growth) (host : σ) (program : Program σ) :
    Tidy slots (.start { heap := { growth, types, host } } program) :=
  ⟨Sound.start valid growth host program, slotted, fun _ member => nomatch member⟩

theorem Runs.lawful {point last : Point σ} (tidy : Tidy slots point)
    (run : Runs (Point.Careful slots) point last) : Runs Point.Lawful point last := by
  induction run with
  | refl => exact .refl
  | tail run step ih =>
    obtain ⟨sound, slotted, refs⟩ := tidy.of_runs run
    exact ih.tail ⟨step.1.lawful sound.consistent slotted refs, step.2⟩

/-- At every point of a careful run, also inside callbacks, a slot of a live object holds zero or
    the address of a live object, and the roots and the registries list live objects only, as do the
    finalizers that have been scheduled and have not returned. -/
theorem Runs.no_dangling {types : TypeTable} (valid : types.Valid) (slotted : types.Slotted slots)
    (growth : Growth) (host : σ) (program : Program σ) {point : Point σ}
    (run : Runs (Point.Careful slots) (.start { heap := { growth, types, host } } program) point) :
    let heap := point.collector.heap
    (∀ o ∈ heap.live, ∀ slot ∈ heap.types.slotsOf slots heap.memory o,
      heap.memory.readWord o slot = 0 ∨
        ∃ target ∈ heap.live, heap.memory.readWord o slot = target.word) ∧
    (∀ o ∈ heap.roots.objects, o ∈ heap.live) ∧
    (∀ entry ∈ heap.finalizers.toList, entry.object ∈ heap.live) ∧
    (∀ o ∈ heap.weakHolders.toList, o ∈ heap.live) ∧
    ∀ entry ∈ point.stage.entries, entry.object ∈ heap.live := by
  obtain ⟨sound, _, refs⟩ := (Tidy.start valid slotted growth host program).of_runs run
  refine ⟨?_, sound.consistent.roots_live, ?_, ?_, ?_⟩
  · intro o live slot inside
    cases held : TypeTable.target? point.collector.heap.memory o slot with
    | none => exact .inl (Ref.ofWord?_eq_none held)
    | some target =>
      exact .inr ⟨target, refs o live slot inside target held, Ref.eq_of_ofWord?_eq_some held⟩
  · intro entry member
    exact Heap.mem_live_of_objects
      (sound.consistent.finalizers_mem _ (List.mem_map_of_mem member))
  · intro o member
    exact ((sound.consistent.weak_iff o).mp member).1
  · intro entry member
    exact Heap.mem_live_of_objects (sound.due entry member).1

end Runs

def Heap.noNode : Heap SystemMemory :=
  { growth := {}, types := .nodes, host := {} }

def Heap.noRow : Heap SystemMemory :=
  { growth := {}, types := .rows, host := {} }

def Request.pair : Request :=
  .varsize ⟨0⟩ 2 8 8 0

def Heap.afterwards {α : Type} (action : HeapM σ α) (heap : Heap σ) : Heap σ :=
  match action heap with
  | .ok _ after => after
  | .error _ after => after

theorem Runs.code {contract : Point σ → Prop} {first : Point σ} {before after : Collector σ}
    {place : Place σ} {code rest : Code σ} {history new : List (Happening σ)}
    (run : Runs contract first ⟨before, .code place code, history⟩)
    (kept : contract ⟨before, .code place code, history⟩)
    (step : CodeStep before code new after rest) :
    Runs contract first ⟨after, .code place rest, history ++ new⟩ :=
  run.tail ⟨kept, .code step place history⟩

/-- Memory with five places for blocks of at most 64 bytes, which are used again. -/
structure Shelves where
  taken : List Ref := []

namespace Shelves

def places : List Ref :=
  [.placed 64, .placed 128, .placed 192, .placed 256, .placed 320]

instance : RawMemory Shelves where
  request size shelves :=
    match places.find? (· ∉ shelves.taken) with
    | some object =>
      if size ≤ 64 then (.ok object, ⟨object :: shelves.taken⟩) else (.error .outOfMemory, shelves)
    | none => (.error .outOfMemory, shelves)
  release object _ shelves := ⟨shelves.taken.erase object⟩

end Shelves

def Descriptor.holder : Descriptor :=
  { name := "holder", layout := .fixed 16, weakOffset := some 8, trace := .slots [0] }

def Descriptor.row : Descriptor :=
  { name := "row", layout := .varsize 8 8 0, trace := .slots [] }

namespace TypeTable

def mixed : TypeTable :=
  ⟨#[.holder, .row]⟩

def mixedSlots : SlotMap :=
  fun typeId _ => if typeId.index = 0 then [0] else []

theorem get?_mixed {typeId : TypeId} {descriptor : Descriptor}
    (known : mixed.get? typeId = some descriptor) :
    typeId = ⟨0⟩ ∧ descriptor = .holder ∨ typeId = ⟨1⟩ ∧ descriptor = .row := by
  obtain ⟨_ | _ | index⟩ := typeId
  · exact .inl ⟨rfl, (Option.some.inj known).symm⟩
  · exact .inr ⟨rfl, (Option.some.inj known).symm⟩
  · cases known

theorem valid_mixed : mixed.Valid := by
  intro typeId descriptor known
  rcases get?_mixed known with ⟨_, rfl⟩ | ⟨_, rfl⟩ <;> rfl

theorem slotted_mixed : mixed.Slotted mixedSlots := by
  intro typeId descriptor known
  rcases get?_mixed known with ⟨rfl, rfl⟩ | ⟨rfl, rfl⟩
  · refine Descriptor.slotted_of_slots rfl rfl (List.forall_mem_singleton.mpr (by decide))
      (List.pairwise_singleton _ _) ?_
    intro slot member weak offset
    cases offset
    rw [List.mem_singleton.mp member]
    exact .inl (by decide)
  · refine ⟨fun view _ => ⟨[], rfl, fun child => ⟨nofun, ?_⟩⟩, fun _ => .nil, nofun, nofun⟩
    rintro ⟨slot, member, _⟩
    cases member

end TypeTable

def Request.holder (finalizer : Option Finalizer) : Request :=
  .fixed ⟨0⟩ 16 finalizer true

def Request.row (length : Word) : Request :=
  .varsize ⟨1⟩ length 8 8 0

namespace Program

def make (request : Request) (next : Ref → Program Shelves) : Program Shelves :=
  .call (.allocate request) fun
    | .ok object => next object
    | .error _ => .done

def insist (_ : Ref) : Program Shelves :=
  .call .collect fun _ => .done

/-- A root refers to a row, and weakly to an object with a finalizer; an immortal object refers
    weakly to garbage. One collection calls the finalizer and the next one frees its object. Then a
    row is asked for that is too long, which another collection does not help. -/
def tour : Program Shelves :=
  .addQueue insist fun queue =>
  make (.holder (some ⟨queue, false⟩)) fun first =>
  make (.holder none) fun root =>
  make (.row 2) fun row =>
  make (.external ⟨0⟩ 16) fun anchor =>
  make (.holder none) fun lost =>
  .call (.addRoot root) fun _ =>
  .call (.writeRef root 0 (some row)) fun _ =>
  .call (.writeRef root 8 (some first)) fun _ =>
  .call (.writeRef anchor 8 (some lost)) fun _ =>
  .call (.writeWord row 8 7) fun _ =>
  .call .collect fun _ =>
  .call .collect fun _ =>
  make (.holder (some ⟨queue, true⟩)) fun _ =>
  make (.row 9) fun _ => .done

end Program

def Growth.short : Growth :=
  { initialHeapSize := 64, minHeapSize := 64 }

def Point.tour : Point Shelves :=
  .start { heap := { growth := .short, types := .mixed, host := {} } } .tour

theorem Point.careful_tour :
    tour.always (fun later => decide (later.Careful TypeTable.mixedSlots)) 40 = true := by
  decide +kernel

theorem Point.tidy_tour : Tidy TypeTable.mixedSlots .tour :=
  .start TypeTable.valid_mixed TypeTable.slotted_mixed .short ({} : Shelves) .tour

theorem Runs.lawful_tour (steps : Nat) : Runs Point.Lawful .tour (Point.after steps .tour) :=
  Runs.lawful Point.tidy_tour (.to_after Point.careful_tour steps)

def Stage.running? : Stage σ → Option FinalizerEntry
  | .code (.callback entry _) _ => some entry
  | _ => none

/-- A callback is running. The garbage is gone, and the slot that referred to it is empty; the
    object of the finalizer is there, and the slot that refers to it is not. -/
theorem Runs.no_dangling_tour : ∃ point : Point Shelves,
    let heap := point.collector.heap
    (point.stage.running? = some ⟨.placed 64, ⟨0⟩, false⟩ ∧
      heap.live = [.placed 64, .placed 128, .placed 192, .placed 256] ∧
      heap.memory.readWord (.placed 128) 8 = 64 ∧ heap.memory.readWord (.placed 256) 8 = 0) ∧
    (∀ o ∈ heap.live, ∀ slot ∈ heap.types.slotsOf TypeTable.mixedSlots heap.memory o,
      heap.memory.readWord o slot = 0 ∨
        ∃ target ∈ heap.live, heap.memory.readWord o slot = target.word) ∧
    (∀ o ∈ heap.roots.objects, o ∈ heap.live) ∧
    (∀ entry ∈ heap.finalizers.toList, entry.object ∈ heap.live) ∧
    (∀ o ∈ heap.weakHolders.toList, o ∈ heap.live) ∧
    ∀ entry ∈ point.stage.entries, entry.object ∈ heap.live := by
  have held := Runs.no_dangling TypeTable.valid_mixed TypeTable.slotted_mixed .short
    ({} : Shelves) .tour (.to_after Point.careful_tour 19)
  exact ⟨_, by decide +kernel, held⟩

end Reclaim
