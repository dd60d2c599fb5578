import Reclaim.Proofs.Heap.Counterparts
import Reclaim.Proofs.Heap.Setup
import Reclaim.Proofs.Run.Outcomes

namespace Reclaim

def Fault.Alike (pairing : Pairing) (fault other : Fault) : Prop :=
  ∀ label label' : Ref → String, (∀ a b, pairing.Pairs a b → label a = label' b) →
    fault.message label = other.message label'

inductive Pairing.Settles (pairing : Pairing) {α : Type} (related : α → α → Prop) :
    Except Fault α → Except Fault α → Prop
  | ok {value other : α} (h : related value other) : Settles pairing related (.ok value) (.ok other)
  | error {fault other : Fault} (alike : fault.Alike pairing other) :
      Settles pairing related (.error fault) (.error other)

theorem Word.fault_of_add {first second : Word} {fault : Fault}
    (failed : add first second = .error fault) : fault = .overflow .add := by
  unfold add at failed
  split at failed <;> cases failed
  rfl

theorem Descriptor.checkDisjoint_settles {pairing : Pairing} {fault fault' : Fault}
    (alike : fault.Alike pairing fault') (offset other : Word) :
    pairing.Settles Eq (checkDisjoint offset other fault) (checkDisjoint offset other fault') := by
  simp only [checkDisjoint, bind, Except.bind]
  cases sum : Word.add offset Word.size with
  | error found =>
    rw [Word.fault_of_add sum]
    exact .error fun _ _ _ => rfl
  | ok last =>
    dsimp only
    split
    · exact .ok rfl
    · cases sum' : Word.add other Word.size with
      | error found =>
        rw [Word.fault_of_add sum']
        exact .error fun _ _ _ => rfl
      | ok last' =>
        dsimp only
        split
        · exact .ok rfl
        · exact .error alike

namespace RootTable.Alike

variable {pairing : Pairing} {table other : RootTable} (h : Alike pairing table other)

include h

theorem set {target target' : Option Ref} (links : pairing.Links target target') (id : RootId) :
    pairing.Settles (Alike pairing) (table.set id target) (other.set id target') := by
  rw [RootTable.set, RootTable.set, h.isAllocated_eq, h.free]
  split
  · exact .ok (h.set_slot (.occupied links) _ _)
  · exact .error fun _ _ _ => rfl

theorem remove (id : RootId) :
    pairing.Settles (Alike pairing) (table.remove id) (other.remove id) := by
  rw [RootTable.remove, RootTable.remove, h.isAllocated_eq, h.free]
  split
  · exact .ok (h.set_slot .vacant _ _)
  · exact .error fun _ _ _ => rfl

end RootTable.Alike

namespace Heap

variable {σ : Type} {slots : SlotMap} {heap other after after' : Heap σ} {a b c d : Ref}

section Writing

variable {start : Nat} {bytes bytes' : List UInt8}

theorem Alike.wrote (h : heap.Alike slots other) (pair : (heap.pairing other).Pairs a b)
    (wrote : heap.Wrote after a start bytes) (wrote' : other.Wrote after' b start bytes')
    (twins : heap.types.Twins slots (heap.pairing other) after.memory after'.memory a b) :
    after.Alike slots after' := by
  have elsewhere (c d : Ref) (paired : (heap.pairing other).Pairs c d) :
      heap.types.Twins slots (heap.pairing other) after.memory after'.memory c d := by
    by_cases same : a = c
    · have same' := (h.eq_iff_eq pair paired).mp same
      subst same same'
      exact twins
    · have different := mt (h.eq_iff_eq pair paired).mpr same
      refine (h.twins c d paired).frame (wrote.headerWord c) ?_ (wrote'.headerWord d) ?_
      · rw [wrote.payload, if_neg same]
      · rw [wrote'.payload, if_neg different]
  have same := wrote.after_eq
  have same' := wrote'.after_eq
  generalize heap.memory.writeBytes a start bytes = memory at same
  generalize other.memory.writeBytes b start bytes' = memory' at same'
  subst same same'
  exact { h with twins := elsewhere }

theorem Alike.untouched (h : heap.Alike slots other) (pair : (heap.pairing other).Pairs a b)
    (wrote : heap.Wrote after a start bytes) (wrote' : other.Wrote after' b start bytes)
    (untouched : ∀ slot ∈ heap.types.slotsOf slots heap.memory a,
      Payload.Untouched slot.toNat start bytes.length) : after.Alike slots after' := by
  have twins := h.twins a b pair
  have shape' := wrote'.shape
  rw [h.types] at shape'
  refine h.wrote pair wrote wrote' (twins.of_sameShape wrote.shape shape' ?_ ?_ ?_)
  · rw [wrote'.headerWord, wrote.headerWord, twins.headerWord]
  · intro slot inside
    rw [TypeTable.target?, TypeTable.target?, wrote.payload, wrote'.payload, if_pos rfl,
      if_pos rfl, Payload.readWord_write_of_untouched _ (untouched slot inside),
      Payload.readWord_write_of_untouched _ (untouched slot inside)]
    exact twins.target slot inside
  · intro i off
    rw [wrote.payload, wrote'.payload, if_pos rfl, if_pos rfl, Payload.byte_write,
      Payload.byte_write, twins.byte i off]

theorem target?_of_stored (slotted : heap.types.Slotted slots) {offset slot : Word}
    {target : Option Ref}
    (wrote : heap.Wrote after a offset.toNat (Ref.slotWord target).toBytes)
    (inside : offset ∈ heap.types.slotsOf slots heap.memory a)
    (member : slot ∈ heap.types.slotsOf slots heap.memory a) :
    TypeTable.target? after.memory a slot =
      if slot = offset then target else TypeTable.target? heap.memory a slot := by
  rw [TypeTable.target?, wrote.payload, if_pos rfl]
  change Ref.ofWord? (((heap.memory.payload a).writeWord _ _).readWord _) = _
  by_cases same : slot = offset
  · subst same
    rw [if_pos rfl, Payload.readWord_writeWord_self, Ref.ofWord?_slotWord]
  · have apart := (TypeTable.eq_or_apart slotted inside member).resolve_left (Ne.symm same)
    rw [if_neg same, Payload.readWord_writeWord_of_apart _ _ apart]
    rfl

theorem Alike.stored (h : heap.Alike slots other) (slotted : heap.types.Slotted slots)
    (pair : (heap.pairing other).Pairs a b) {offset : Word} {target target' : Option Ref}
    (links : (heap.pairing other).Links target target')
    (inside : offset ∈ heap.types.slotsOf slots heap.memory a)
    (wrote : heap.Wrote after a offset.toNat (Ref.slotWord target).toBytes)
    (wrote' : other.Wrote after' b offset.toNat (Ref.slotWord target').toBytes) :
    after.Alike slots after' := by
  have twins := h.twins a b pair
  have shape' := wrote'.shape
  have same : other.types.slotsOf slots other.memory b =
      heap.types.slotsOf slots heap.memory a := by
    rw [h.types, twins.slotsOf]
  rw [h.types] at shape'
  refine h.wrote pair wrote wrote' (twins.of_sameShape wrote.shape shape' ?_ ?_ ?_)
  · rw [wrote'.headerWord, wrote.headerWord, twins.headerWord]
  · intro slot member
    rw [target?_of_stored slotted wrote inside member,
      target?_of_stored (h.types ▸ slotted) wrote' (same ▸ inside) (same ▸ member)]
    split
    · exact links
    · exact twins.target slot member
  · intro i off
    have outside : i < offset.toNat ∨ offset.toNat + 8 ≤ i := off offset inside
    rw [wrote.payload, wrote'.payload, if_pos rfl, if_pos rfl, Payload.byte_write_of_outside,
      Payload.byte_write_of_outside, twins.byte i off]
    · rwa [Word.length_toBytes]
    · rwa [Word.length_toBytes]

end Writing

section Reading

variable {descriptor : Descriptor} {length : Word}

theorem Alike.readable (h : heap.Alike slots other) (pair : (heap.pairing other).Pairs a b)
    (readable : heap.Readable a descriptor length) : other.Readable b descriptor length := by
  have twins := h.twins a b pair
  refine ⟨?_, ?_⟩
  · rw [h.types, twins.header]
    exact readable.known
  · rw [twins.payloadSize readable.known]
    exact readable.payloadSize

theorem Alike.checkWritable (h : heap.Alike slots other) (pair : (heap.pairing other).Pairs a b)
    (readable : heap.Readable a descriptor length) (offset : Word) :
    (heap.pairing other).Settles Eq (heap.checkWritable a offset)
      (other.checkWritable b offset) := by
  have readable' := h.readable pair readable
  have alike : (Fault.readOnlyLength a).Alike (heap.pairing other) (.readOnlyLength b) := by
    intro label label' same
    have text : a.text label = b.text label' := by rw [Ref.text, Ref.text, same a b pair]
    exact congrArg (fun shown => s!"the length word of {shown} is read-only") text
  simp only [Heap.checkWritable, readable.view_eq_ok, readable.descriptorOf_eq_ok,
    readable'.view_eq_ok, readable'.descriptorOf_eq_ok, bind, Except.bind]
  cases within : checkBounds offset Word.size length with
  | error fault =>
    rw [checkBounds_eq_error within]
    exact .error fun _ _ _ => rfl
  | ok _ =>
    dsimp only
    cases descriptor.layout with
    | fixed size => exact .ok rfl
    | varsize base item lengthOffset =>
      exact Descriptor.checkDisjoint_settles alike offset lengthOffset

theorem Alike.writablePart (h : heap.Alike slots other) (valid : heap.types.Valid)
    (pair : (heap.pairing other).Pairs a b) (readable : heap.Readable a descriptor length) :
    (heap.pairing other).Settles Eq (heap.writablePart a) (other.writablePart b) := by
  have readable' := h.readable pair readable
  obtain ⟨start, room, found, first, total⟩ := readable.exists_writablePart valid
  obtain ⟨start', room', found', first', total'⟩ := readable'.exists_writablePart (h.types ▸ valid)
  have same : start' = start := UInt64.toNat_inj.mp (first'.trans first.symm)
  subst same
  have same : room' = room := UInt64.toNat_inj.mp (by omega)
  subst same
  rw [found, found']
  exact .ok rfl

end Reading

section Granting

variable {request : Request} {cost : Word} {object object' : Ref}

theorem entries_alike {pairing : Pairing} (pair : pairing.Pairs object object') :
    List.Forall₂ (FinalizerEntry.Alike pairing) (request.entries object)
      (request.entries object') := by
  rw [Request.entries, Request.entries]
  cases request.finalizer with
  | none => exact .nil
  | some finalizer => exact .cons ⟨pair, rfl, rfl⟩ .nil

theorem Alike.weakHolder_live (h : heap.Alike slots other) (member : a ∈ heap.weakHolders.toList) :
    a ∈ heap.live := by
  obtain ⟨b, _, pair⟩ := Pairing.exists_of_forall₂ h.weakHolders member
  exact (mem_live_of_pairs pair).1

variable [RawMemory σ]

theorem previousHeapSize_of_allocateNow
    (run : allocateNow request cost heap = .ok (.ok object) after) :
    after.previousHeapSize = heap.previousHeapSize := by
  rw [allocateNow, bind_eq_ok] at run
  obtain ⟨answered, middle, requested, run⟩ := run
  cases answered with
  | error error => cases run
  | ok found =>
    obtain ⟨host, _, rfl⟩ := request_eq_ok requested
    simp only [bind_eq_ok] at run
    obtain ⟨_, entered, entering, _, _, furnishing, run⟩ := run
    cases run
    cases furnishing
    obtain ⟨heapSize, rfl, _⟩ := enter_eq_ok entering
    rw [furnish_eq]
    rfl

theorem Alike.pairs_of_granted (h : heap.Alike slots other)
    (granted : heap.Granted after request cost object)
    (granted' : other.Granted after' request cost object') :
    (after.pairing after').Pairs c d ↔
      (heap.pairing other).Pairs c d ∨ c = object ∧ d = object' := by
  rw [pairing, granted.objects, granted'.objects, granted.external, granted'.external,
    List.zip_append h.length_objects.symm, List.zip_append h.length_external.symm, pairing,
    Pairing.Pairs, Pairing.Pairs]
  cases request.isExternal <;> simp <;> tauto

section

variable (h : heap.Alike slots other) (grant : heap.Granted after request cost object)
  (grant' : other.Granted after' request cost object') (fresh : object ∉ heap.live)
  (fresh' : object' ∉ other.live)

include h grant grant'

theorem Alike.pairing_subset : heap.pairing other ⊆ after.pairing after' := by
  rintro ⟨c, d⟩ pair
  exact (h.pairs_of_granted grant grant').mpr (.inl pair)

theorem Alike.pairs_new : (after.pairing after').Pairs object object' :=
  (h.pairs_of_granted grant grant').mpr (.inr ⟨rfl, rfl⟩)

theorem Alike.twins_new (valid : heap.types.Valid) (slotted : heap.types.Slotted slots)
    {queues : Nat} {descriptor : Descriptor}
    (admitted : request.Admitted heap.types queues cost descriptor) (pairing : Pairing) :
    heap.types.Twins slots pairing after.memory after'.memory object object' where
  headerWord := by
    rw [grant.headerWord, grant'.headerWord, if_pos rfl, if_pos rfl]
  length := by
    intro _ _
    rw [grant.payload, grant'.payload, if_pos rfl, if_pos rfl]
  target := by
    intro slot inside
    have inside' : slot ∈ other.types.slotsOf slots after'.memory object' := by
      rw [TypeTable.slotsOf, TypeTable.tracedSlots, TypeTable.weakSlot?, Memory.header,
        grant'.headerWord, grant'.payload, h.types, if_pos rfl, if_pos rfl]
      rw [TypeTable.slotsOf, TypeTable.tracedSlots, TypeTable.weakSlot?, Memory.header,
        grant.headerWord, grant.payload, if_pos rfl, if_pos rfl] at inside
      exact inside
    rw [grant.target?_eq_none slotted admitted valid inside,
      grant'.target?_eq_none (h.types ▸ slotted) (h.types ▸ admitted) (h.types ▸ valid) inside']
    exact .none
  byte := by
    intro i _
    rw [grant.payload, grant'.payload, if_pos rfl, if_pos rfl]

include fresh fresh'

theorem Alike.twins_old (pair : (heap.pairing other).Pairs c d) :
    heap.types.Twins slots (after.pairing after') after.memory after'.memory c d := by
  obtain ⟨live, live'⟩ := mem_live_of_pairs pair
  have different : object ≠ c := by
    rintro rfl
    exact fresh live
  have different' : object' ≠ d := by
    rintro rfl
    exact fresh' live'
  refine ((h.twins c d pair).mono (h.pairing_subset grant grant')).frame ?_ ?_ ?_ ?_
  · rw [grant.headerWord, if_neg different]
  · rw [grant.payload, if_neg different]
  · rw [grant'.headerWord, if_neg different']
  · rw [grant'.payload, if_neg different']

theorem Alike.granted (run : allocateNow request cost heap = .ok (.ok object) after)
    (run' : allocateNow request cost other = .ok (.ok object') after')
    (valid : heap.types.Valid) (slotted : heap.types.Slotted slots)
    {queues : Nat} {descriptor : Descriptor}
    (admitted : request.Admitted heap.types queues cost descriptor) :
    after.Alike slots after' := by
  have sub := h.pairing_subset grant grant'
  have pair := h.pairs_new grant grant'
  have growth := (keepsSetup_allocateNow request cost run).growth
  have growth' := (keepsSetup_allocateNow request cost run').growth
  have baseline := previousHeapSize_of_allocateNow run
  have baseline' := previousHeapSize_of_allocateNow run'
  have unlisted : object ∉ heap.weakHolders.toList := mt h.weakHolder_live fresh
  have unlisted' : object' ∉ other.weakHolders.toList := mt h.flip.weakHolder_live fresh'
  exact {
    growth := by rw [growth', growth, h.growth]
    types := by rw [grant'.types, grant.types, h.types]
    heapSize := by
      have size := grant.heapSize
      have size' := grant'.heapSize
      rw [h.heapSize] at size'
      exact UInt64.toNat_inj.mp (size'.trans size.symm)
    previousHeapSize := by rw [baseline', baseline, h.previousHeapSize]
    collecting := by rw [grant'.collecting, grant.collecting, h.collecting]
    stats := by rw [grant'.stats, grant.stats, h.stats]
    objects := by
      rw [← Array.length_toList, ← Array.length_toList, grant'.objects, grant.objects,
        List.length_append, List.length_append, h.length_objects]
      split <;> rfl
    external := by
      rw [← Array.length_toList, ← Array.length_toList, grant'.external, grant.external,
        List.length_append, List.length_append, h.length_external]
      split <;> rfl
    distinct := grant.live_nodup fresh h.distinct
    distinct' := grant'.live_nodup fresh' h.distinct'
    twins := by
      intro c d paired
      rw [grant.types]
      rcases (h.pairs_of_granted grant grant').mp paired with old | ⟨rfl, rfl⟩
      · exact h.twins_old grant grant' fresh fresh' old
      · exact h.twins_new grant grant' valid slotted admitted _
    finalizers := by
      rw [grant.finalizers, grant'.finalizers]
      exact List.rel_append (h.finalizers.imp fun _ _ => FinalizerEntry.Alike.mono sub)
        (entries_alike pair)
    weakHolders := by
      rw [grant.weakHolders, grant'.weakHolders, h.types]
      refine List.rel_append (h.weakHolders.imp fun _ _ paired => sub paired) ?_
      simp only [unlisted, unlisted', not_false_eq_true, and_true]
      split
      · exact .cons pair .nil
      · exact .nil
    roots := by
      rw [grant.roots, grant'.roots]
      exact h.roots.restrict fun _ _ _ paired => sub paired }

end

end Granting

/-- Two operations on heaps end with answers that correspond, or both fail for the same reason; in
    either case they leave heaps that are alike. -/
inductive Outcome (slots : SlotMap) {α α' : Type} (answers : Pairing → α → α' → Prop) :
    EStateM.Result Fault (Heap σ) α → EStateM.Result Fault (Heap σ) α' → Prop
  | ok {answer : α} {answer' : α'} {after after' : Heap σ}
      (h : answers (after.pairing after') answer answer') (alike : after.Alike slots after') :
      Outcome slots answers (.ok answer after) (.ok answer' after')
  | error {fault fault' : Fault} {after after' : Heap σ}
      (h : fault.Alike (after.pairing after') fault') (alike : after.Alike slots after') :
      Outcome slots answers (.error fault after) (.error fault' after')

section Operations

variable {α β β' : Type} {answers : Pairing → β → β' → Prop}

theorem Outcome.check {related : α → α → Prop} {read read' : Heap σ → Except Fault α}
    {next : α → HeapM σ β} {next' : α → HeapM σ β'} (h : heap.Alike slots other)
    (settles : (heap.pairing other).Settles related (read heap) (read' other))
    (more : ∀ value value', read heap = .ok value → read' other = .ok value' →
      related value value' → Outcome slots answers (next value heap) (next' value' other)) :
    Outcome slots answers ((Heap.check read >>= next) heap)
      ((Heap.check read' >>= next') other) := by
  cases found : read heap with
  | ok value =>
    rw [found] at settles
    cases found' : read' other with
    | error fault' =>
      rw [found'] at settles
      cases settles
    | ok value' =>
      rw [found'] at settles
      cases settles with
      | ok relates =>
        rw [bind_of_ok (check_of_ok found), bind_of_ok (check_of_ok found')]
        exact more value value' found found' relates
  | error fault =>
    rw [found] at settles
    cases found' : read' other with
    | ok value' =>
      rw [found'] at settles
      cases settles
    | error fault' =>
      rw [found'] at settles
      cases settles with
      | error alike =>
        rw [bind_of_error (check_eq_error.mpr ⟨found, rfl⟩),
          bind_of_error (check_eq_error.mpr ⟨found', rfl⟩)]
        exact .error alike h

variable (h : heap.Alike slots other)

include h

theorem Alike.with_roots {roots roots' : RootTable}
    (alike : roots.Alike (heap.pairing other) roots') :
    Alike slots { heap with roots } { other with roots := roots' } :=
  { h with roots := alike }

theorem Alike.addRoot (pair : (heap.pairing other).Pairs a b) :
    Outcome slots (fun _ => Eq) (Heap.addRoot a heap) (Heap.addRoot b other) := by
  obtain ⟨same, alike⟩ := h.roots.add (.some pair)
  rw [Heap.addRoot, Heap.addRoot, modifyGet_apply, modifyGet_apply]
  exact .ok same.symm (h.with_roots alike)

theorem Alike.setRoot {target target' : Option Ref} (id : RootId)
    (links : (heap.pairing other).Links target target') :
    Outcome slots (fun _ => Eq) (Heap.setRoot id target heap)
      (Heap.setRoot id target' other) := by
  refine Outcome.check h (h.roots.set links id) fun roots roots' _ _ alike => ?_
  exact .ok rfl (h.with_roots alike)

theorem Alike.removeRoot (id : RootId) :
    Outcome slots (fun _ => Eq) (Heap.removeRoot id heap) (Heap.removeRoot id other) := by
  refine Outcome.check h (h.roots.remove id) fun roots roots' _ _ alike => ?_
  exact .ok rfl (h.with_roots alike)

variable (consistent : heap.Consistent) (pair : (heap.pairing other).Pairs a b)

include consistent pair

theorem Alike.writeWord {offset word word' : Word}
    (stays : ∀ after after', heap.Wrote after a offset.toNat word.toBytes →
      other.Wrote after' b offset.toNat word'.toBytes → after.Alike slots after') :
    Outcome slots (fun _ => Eq) (Heap.writeWord a offset word heap)
      (Heap.writeWord b offset word' other) := by
  obtain ⟨live, live'⟩ := mem_live_of_pairs pair
  obtain ⟨descriptor, length, readable⟩ := consistent.readable live
  refine Outcome.check h (h.checkWritable pair readable offset) fun _ _ found found' _ => ?_
  refine .ok rfl (stays _ _ (wrote_of_writeWord live ?_) (wrote_of_writeWord live' ?_))
  · exact bind_of_ok (check_of_ok found)
  · exact bind_of_ok (check_of_ok found')

theorem Alike.writePayload {offset : Word} {bytes : List UInt8}
    (untouched : ∀ start room, heap.writablePart a = .ok (start, room) →
      ∀ slot ∈ heap.types.slotsOf slots heap.memory a, Payload.Untouched slot.toNat
        (start.toNat + offset.toNat) (bytes.take (room.toNat - offset.toNat)).length) :
    Outcome slots (fun _ => Eq) (Heap.writePayload a offset bytes heap)
      (Heap.writePayload b offset bytes other) := by
  obtain ⟨live, live'⟩ := mem_live_of_pairs pair
  obtain ⟨descriptor, length, readable⟩ := consistent.readable live
  refine Outcome.check h (h.writablePart consistent.types_valid pair readable)
    fun part part' found found' same => ?_
  subst same
  obtain ⟨start, room⟩ := part
  have run : Heap.writePayload a offset bytes heap = .ok room { heap with
      memory := heap.memory.writeBytes a (start.toNat + offset.toNat)
        (bytes.take (room.toNat - offset.toNat)) } := bind_of_ok (check_of_ok found)
  have run' : Heap.writePayload b offset bytes other = .ok room { other with
      memory := other.memory.writeBytes b (start.toNat + offset.toNat)
        (bytes.take (room.toNat - offset.toNat)) } := bind_of_ok (check_of_ok found')
  obtain ⟨first, part, wrote⟩ := wrote_of_writePayload live run
  obtain ⟨first', part', wrote'⟩ := wrote_of_writePayload live' run'
  rw [found] at part
  rw [found'] at part'
  cases part
  cases part'
  exact .ok rfl (h.untouched pair wrote wrote' (untouched start room found))

end Operations

end Heap

end Reclaim
