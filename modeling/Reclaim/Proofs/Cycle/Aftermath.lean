import Mathlib.Tactic.Tauto
import Reclaim.Proofs.Cycle.Reclaiming

namespace Reclaim

def Event.call? : Event → Option FinalizerEntry
  | .logged (.runningFinalizer entry) => some entry
  | _ => none

def finalizerCalls (events : List Event) : List FinalizerEntry :=
  events.filterMap Event.call?

theorem finalizerCalls_append (first second : List Event) :
    finalizerCalls (first ++ second) = finalizerCalls first ++ finalizerCalls second :=
  List.filterMap_append

def Event.naming? (object : Ref) : Event → Option String
  | .logged (.bound name named) => if named = object then some name else none
  | _ => none

def givenName (events : List Event) (object : Ref) : Option String :=
  events.reverse.findSome? (Event.naming? object)

theorem givenName_append {events more : List Event} {object : Ref}
    (unnamed : ∀ event ∈ more, event.naming? object = none) :
    givenName (events ++ more) object = givenName events object := by
  have none_found : more.reverse.findSome? (Event.naming? object) = none := by
    rw [List.findSome?_eq_none_iff]
    exact fun event member => unnamed event (List.mem_reverse.mp member)
  rw [givenName, List.reverse_append, List.findSome?_append, none_found]
  rfl

theorem givenName_bound (events : List Event) (name : String) (object : Ref) :
    givenName (events ++ [.logged (.bound name object)]) object = some name := by
  simp [givenName, Event.naming?]

end Reclaim

namespace Reclaim.Heap.Reclaimed

variable {σ : Type} [RawMemory σ] {before after : Heap σ} {cycle : Cycle}

theorem mem_objects (h : before.Reclaimed cycle after) {o : Ref} :
    o ∈ after.objects.toList ↔ o ∈ before.objects.toList ∧ before.Retained o := by
  rw [h.objects, mem_reached]

theorem mem_live (h : before.Reclaimed cycle after) {o : Ref} :
    o ∈ after.live ↔ o ∈ before.live ∧ before.Retained o := by
  have immortal : o ∈ before.external.toList → before.Retained o := retained_of_external
  rw [live, List.mem_append, h.mem_objects, h.external, live, List.mem_append]
  tauto

theorem typeId (h : before.Reclaimed cycle after) (o : Ref) :
    (after.memory.header o).typeId = (before.memory.header o).typeId := by
  rw [Memory.header, h.headerWord]
  split
  · exact Header.typeId_or_mask ..
  · rw [UInt64.or_zero, Memory.header]

theorem contains_single (h : before.Reclaimed cycle after) {i : Nat} (inside : i < 48)
    (other : i ≠ 2) (o : Ref) :
    (after.memory.flags o).contains (.single i) = (before.memory.flags o).contains (.single i) := by
  simp only [Memory.flags, Memory.header, h.headerWord, Flags.finalizerReachable_eq_single]
  split
  · rw [Header.contains_single_or_mask _ inside, decide_eq_false (Ne.symm other), Bool.false_or]
  · rw [UInt64.or_zero]

theorem isSurviving (h : before.Reclaimed cycle after) (o : Ref) :
    after.memory.isSurviving o = before.memory.isSurviving o := by
  simp only [Memory.isSurviving, Flags.surviving_eq_single]
  exact h.contains_single (by decide) (by decide) o

theorem finalizerReachable (h : before.Reclaimed cycle after) (o : Ref) :
    (after.memory.flags o).contains .finalizerReachable =
      (decide (o ∈ cycle.scheduled.map FinalizerEntry.object) ||
        (before.memory.flags o).contains .finalizerReachable) := by
  simp only [Memory.flags, Memory.header, h.headerWord, Flags.finalizerReachable_eq_single]
  by_cases member : o ∈ cycle.scheduled.map FinalizerEntry.object
  · rw [if_pos member, Header.contains_single_or_mask _ (by decide)]
    simp [member]
  · rw [if_neg member, UInt64.or_zero]
    simp [member]

theorem sameShape (valid : before.types.Valid) (h : before.Reclaimed cycle after) (o : Ref) :
    before.types.SameShape before.memory after.memory o := by
  by_cases member : o ∈ before.bereft
  · obtain ⟨slot, found, payload⟩ := h.payload_bereft o member
    have written := TypeTable.SameShape.writeWord_weak valid 0 found
    refine ⟨h.typeId o, ?_⟩
    intro descriptor known
    rw [payload, ← written.length descriptor known, Memory.payload_writeWord, if_pos rfl]
  · exact .of_payload (h.typeId o) (h.payload_kept o member)

theorem cost_eq (valid : before.types.Valid) (h : before.Reclaimed cycle after) :
    after.cost = before.cost := by
  funext o
  rw [Heap.cost, Heap.cost, h.types]
  exact TypeTable.cost_congr (h.sameShape valid o)

theorem mem_bereft_iff_of_weakTarget (consistent : before.Consistent)
    (h : before.Reclaimed cycle after) {o target : Ref} (live : o ∈ after.live)
    (points : before.types.weakTarget? before.memory o = some target)
    (known : target ∈ before.live) : o ∈ before.bereft ↔ target ∉ after.live := by
  obtain ⟨old, retained⟩ := h.mem_live.mp live
  rw [mem_bereft, h.mem_live]
  constructor
  · rintro ⟨_, _, other, points', lost, _⟩ ⟨_, survives⟩
    rw [points] at points'
    cases points'
    exact lost survives
  · intro lost
    have holder : o ∈ before.weakHolders.toList := by
      obtain ⟨slot, found, _⟩ := Option.bind_eq_some_iff.mp points
      exact (consistent.weak_iff o).mpr ⟨old, Option.isSome_of_eq_some found⟩
    exact ⟨holder, retained, target, points, fun survives => lost ⟨known, survives⟩,
      consistent.unmarked target known⟩

theorem byte_changed (h : before.Reclaimed cycle after) {o : Ref} {i : Nat}
    (changed : (after.memory.payload o).byte i ≠ (before.memory.payload o).byte i) :
    o ∈ before.bereft ∧ ∃ slot, before.types.weakSlot? before.memory o = some slot ∧
      slot.toNat ≤ i ∧ i < slot.toNat + 8 := by
  have lost : o ∈ before.bereft := by
    by_contra kept
    exact changed (by rw [h.payload_kept o kept])
  obtain ⟨slot, found, payload⟩ := h.payload_bereft o lost
  refine ⟨lost, slot, found, ?_⟩
  by_contra outside
  refine changed ?_
  rw [payload, Payload.writeWord]
  apply Payload.byte_write_of_outside
  rw [Word.length_toBytes]
  omega

theorem finalizers_perm (h : before.Reclaimed cycle after) :
    (after.finalizerObjects ++ cycle.scheduled.map FinalizerEntry.object).Perm
      before.finalizerObjects := by
  rw [finalizerObjects, ← List.map_append]
  exact h.divides.perm.map FinalizerEntry.object

theorem finalizers_disjoint (consistent : before.Consistent) (h : before.Reclaimed cycle after)
    {o : Ref} (kept : o ∈ after.finalizerObjects) :
    o ∉ cycle.scheduled.map FinalizerEntry.object := by
  have nodup := h.finalizers_perm.nodup_iff.mpr consistent.finalizers_nodup
  exact fun scheduled => (List.nodup_append.mp nodup).2.2 o kept o scheduled rfl

theorem mem_objects_of_pending (consistent : before.Consistent) (h : before.Reclaimed cycle after)
    {o : Ref} (pending : o ∈ before.finalizerObjects) : o ∈ after.objects.toList :=
  h.mem_objects.mpr ⟨consistent.finalizers_mem o pending, retained_of_finalizer pending⟩

theorem mem_objects_of_scheduled (consistent : before.Consistent)
    (h : before.Reclaimed cycle after) {entry : FinalizerEntry}
    (scheduled : entry ∈ cycle.scheduled) : entry.object ∈ after.objects.toList :=
  h.mem_objects_of_pending consistent
    (List.mem_map_of_mem (h.divides.scheduled_sublist.subset scheduled))

theorem consistent (consistent : before.Consistent) (h : before.Reclaimed cycle after) :
    after.Consistent := by
  have old {o : Ref} (member : o ∈ after.live) : o ∈ before.live := (h.mem_live.mp member).1
  have pending {o : Ref} (kept : o ∈ after.finalizerObjects) : o ∈ before.finalizerObjects :=
    h.finalizers_perm.subset (List.mem_append_left _ kept)
  have nodup := List.nodup_append.mp consistent.live_nodup
  exact {
    types_valid := h.types ▸ consistent.types_valid
    live_nodup := by
      rw [live, h.objects, h.external]
      refine List.nodup_append.mpr ⟨nodup.1.sublist before.reached_sublist, nodup.2.1, ?_⟩
      intro a left b right
      exact nodup.2.2 a (before.reached_sublist.subset left) b right
    unmarked := fun o member => (h.isSurviving o).trans (consistent.unmarked o (old member))
    sized := by
      intro o member
      obtain ⟨cost, known⟩ := consistent.sized o (old member)
      rw [h.types]
      exact ⟨cost, (TypeTable.allocationCost_congr
        (h.sameShape consistent.types_valid o)).trans known⟩
    heapSize := by
      have left := h.heapSize
      have whole := before.bytes_reached_unreached
      rw [bytes_of_cost (h.cost_eq consistent.types_valid), h.objects]
      rw [consistent.heapSize] at left
      omega
    finalizers_nodup := by
      have both := h.finalizers_perm.nodup_iff.mpr consistent.finalizers_nodup
      exact (List.nodup_append.mp both).1
    finalizers_mem := fun o kept => h.mem_objects_of_pending consistent (pending kept)
    finalizers_pending := by
      intro o kept
      have unscheduled := h.finalizers_disjoint consistent kept
      rw [h.finalizerReachable, consistent.finalizers_pending o (pending kept)]
      simpa using unscheduled
    weak_nodup := consistent.weak_nodup.sublist h.weakHolders_sublist
    weak_iff := by
      intro o
      rw [h.weakHolders, consistent.weak_iff, h.mem_live, h.types,
        TypeTable.weakSlot?_congr (h.typeId o)]
      tauto
    roots_live := by
      intro o member
      rw [h.roots] at member
      exact h.mem_live.mpr ⟨consistent.roots_live o member, retained_of_root member⟩ }

theorem exists_events (h : before.Reclaimed cycle after) :
    ∃ events, after.journal.toList = before.journal.toList ++ events ∧
      ∀ event ∈ events, event.call? = none ∧ ∀ o, event.naming? o = none := by
  refine ⟨_, h.journal, fun event member => ?_⟩
  simp only [List.cons_append, List.mem_cons, List.mem_append, List.not_mem_nil, or_false] at member
  rcases member with rfl | (scheduling | rfl) | releasing
  · exact ⟨rfl, fun _ => rfl⟩
  · obtain ⟨entry, _, rfl⟩ := List.mem_map.mp scheduling
    exact ⟨rfl, fun _ => rfl⟩
  · exact ⟨rfl, fun _ => rfl⟩
  · obtain ⟨object, _, rfl⟩ := List.mem_map.mp releasing
    exact ⟨rfl, fun _ => rfl⟩

end Reclaim.Heap.Reclaimed
