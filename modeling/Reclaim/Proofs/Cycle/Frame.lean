import Reclaim.Proofs.Cycle.Aftermath
import Reclaim.Proofs.Cycle.Order

namespace Reclaim

namespace Heap

variable {σ : Type}

def HoldsWeakly (heap : Heap σ) (object target : Ref) (i : Nat) : Prop :=
  ∃ slot, heap.types.weakSlot? heap.memory object = some slot ∧
    slot.toNat ≤ i ∧ i < slot.toNat + 8 ∧ heap.memory.readRef object slot = some target

def dead (before after : Heap σ) : List Ref :=
  before.objects.toList.filter fun o => o ∉ after.objects.toList

variable [RawMemory σ]

/-- A heap differs from an earlier one by its dead objects, the weak slots that held them and the
    flags of scheduled finalizers. -/
structure Undisturbed (before : Heap σ) (scheduled : List FinalizerEntry) (after : Heap σ) :
    Prop where
  kept : ∀ o, o ∈ after.objects.toList ↔ o ∈ before.objects.toList ∧ before.Retained o
  ordered : after.objects.toList.Sublist before.objects.toList
  payload : ∀ o i, (∀ target, before.HoldsWeakly o target i → target ∈ after.live) →
    (after.memory.payload o).byte i = (before.memory.payload o).byte i
  emptied : ∀ o ∈ after.live, ∀ target i, before.HoldsWeakly o target i →
    target ∈ before.live → target ∉ after.live → (after.memory.payload o).byte i = 0
  headerWord : ∀ o, after.memory.headerWord o = before.memory.headerWord o |||
    (if o ∈ scheduled.map FinalizerEntry.object then Flags.finalizerReachable.mask else 0)
  unflagged : ∀ entry ∈ scheduled,
    (before.memory.flags entry.object).contains .finalizerReachable = false
  unmarked : ∀ o ∈ before.live, after.memory.isSurviving o = false
  roots : after.roots = before.roots
  scanners : after.scanners = before.scanners
  external : after.external = before.external
  types : after.types = before.types
  growth : after.growth = before.growth
  previousHeapSize : after.previousHeapSize = before.previousHeapSize
  host : after.host = before.releasedHost (before.dead after)
  journal : ∃ records : List LogRecord, after.journal.toList =
    before.journal.toList ++ (records.map Event.logged ++ before.releasings (before.dead after))

namespace Reclaimed

variable {before after : Heap σ} {cycle : Cycle} {o target : Ref} {i : Nat}

theorem dead_eq (h : before.Reclaimed cycle after) : before.dead after = before.unreached := by
  classical
  rw [dead, unreached]
  apply List.filter_congr
  intro o member
  rw [decide_eq_decide, h.mem_objects, not_and]
  exact ⟨fun lost => lost member, fun lost _ => lost⟩

theorem byte_eq (h : before.Reclaimed cycle after)
    (survive : ∀ target, before.HoldsWeakly o target i → target ∈ after.live) :
    (after.memory.payload o).byte i = (before.memory.payload o).byte i := by
  by_contra changed
  obtain ⟨lost, slot, found, first, last⟩ := h.byte_changed changed
  -- what an emptied slot held is not kept
  obtain ⟨_, _, target, points, gone, _⟩ := mem_bereft.mp lost
  rw [TypeTable.weakTarget?, found] at points
  have live := survive target ⟨slot, found, first, last, points⟩
  exact gone (h.mem_live.mp live).2

theorem byte_eq_zero (consistent : before.Consistent) (h : before.Reclaimed cycle after)
    (live : o ∈ after.live) (holds : before.HoldsWeakly o target i) (known : target ∈ before.live)
    (gone : target ∉ after.live) : (after.memory.payload o).byte i = 0 := by
  obtain ⟨slot, found, first, last, held⟩ := holds
  have points : before.types.weakTarget? before.memory o = some target := by
    rw [TypeTable.weakTarget?, found]
    exact held
  have lost := (h.mem_bereft_iff_of_weakTarget consistent live points known).mpr gone
  obtain ⟨slot', found', payload⟩ := h.payload_bereft o lost
  rw [found] at found'
  cases found'
  rw [payload]
  exact Payload.byte_writeWord_zero _ first last

theorem undisturbed (consistent : before.Consistent) (h : before.Reclaimed cycle after) :
    before.Undisturbed cycle.scheduled after where
  kept := fun _ => h.mem_objects
  ordered := by
    rw [h.objects]
    exact before.reached_sublist
  payload := fun _ _ => h.byte_eq
  emptied := fun _ live _ _ => h.byte_eq_zero consistent live
  headerWord := h.headerWord
  unflagged := by
    intro entry member
    have pending := h.divides.scheduled_sublist.subset member
    exact consistent.finalizers_pending _ (List.mem_map_of_mem pending)
  unmarked := fun o live => (h.isSurviving o).trans (consistent.unmarked o live)
  roots := h.roots
  scanners := h.scanners
  external := h.external
  types := h.types
  growth := h.growth
  previousHeapSize := h.previousHeapSize
  host := h.dead_eq ▸ h.host
  journal := by
    refine ⟨.collectionStarted before.heapSize before.objects.size ::
      cycle.scheduled.map .schedulingFinalizer ++
        [.markFinished before.rooted.length cycle.scheduled.length
          (cycle.marked - before.rooted.length)], ?_⟩
    rw [h.dead_eq, h.journal]
    simp [schedulings]

end Reclaimed

end Heap

/-- A collection of an idle heap disturbs nothing but garbage: it gets to the point where the first
    finalizer is called with the queues as they were, and with a heap that differs from the one it
    started from by the objects that it did not keep, by the weak slots that held them and by the
    flags of the finalizers that it is about to call. -/
theorem Collector.collect_undisturbed {σ : Type} [RawMemory σ] {heap : Heap σ}
    (queues : Array (Ref → Program σ)) (consistent : heap.Consistent) (traceable : heap.Traceable)
    (idle : heap.collecting = false) :
    ∃ cycle after, Heap.reclaim heap = .ok cycle after ∧
      collect ⟨heap, queues⟩ = conclude cycle ⟨after, queues⟩ ∧
      heap.Undisturbed cycle.scheduled after := by
  obtain ⟨cycle, after, reclaimed, spec⟩ := Heap.exists_reclaimed consistent traceable
  exact ⟨cycle, after, reclaimed, collect_eq_conclude idle reclaimed queues,
    spec.undisturbed consistent⟩

theorem Heap.dead_sixPairs {cycle : Cycle} {after : Heap SystemMemory}
    (reclaimed : reclaim .sixPairsInOrder = .ok cycle after) :
    sixPairsInOrder.dead after = [⟨160, by decide⟩] ∧
      cycle.scheduled.map FinalizerEntry.object = [⟨112, by decide⟩] := by
  have computed : (match reclaim sixPairsInOrder with
    | .ok cycle after => (sixPairsInOrder.dead after, cycle.scheduled.map FinalizerEntry.object)
    | .error _ _ => ([], [])) = ([⟨160, by decide⟩], [⟨112, by decide⟩]) := by
    decide +kernel
  rw [reclaimed] at computed
  exact Prod.mk.inj computed

theorem Collector.collect_undisturbed_sixPairs :
    Heap.sixPairsInOrder.Consistent ∧ Heap.sixPairsInOrder.Traceable ∧
    Heap.sixPairsInOrder.collecting = false ∧
    ∃ cycle after, Heap.reclaim .sixPairsInOrder = .ok cycle after ∧
      collect ⟨.sixPairsInOrder, #[]⟩ = conclude cycle ⟨after, #[]⟩ ∧
      Heap.sixPairsInOrder.Undisturbed cycle.scheduled after ∧
      Heap.sixPairsInOrder.dead after = [⟨160, by decide⟩] ∧
      cycle.scheduled.map FinalizerEntry.object = [⟨112, by decide⟩] := by
  obtain ⟨cycle, after, reclaimed, ran, undisturbed⟩ :=
    collect_undisturbed #[] Heap.consistent_sixPairs Heap.traceable_sixPairs rfl
  exact ⟨Heap.consistent_sixPairs, Heap.traceable_sixPairs, rfl, cycle, after, reclaimed, ran,
    undisturbed, Heap.dead_sixPairs reclaimed⟩

end Reclaim
