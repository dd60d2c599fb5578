import Reclaim.Client.Collect
import Reclaim.Proofs.Cycle.Reclaiming
import Reclaim.Proofs.Heap.Ledger

namespace Reclaim

namespace Collector

variable {σ : Type} [RawMemory σ]

def conclude (cycle : Cycle) : CollectorM σ Unit := do
  cycle.scheduled.forM runFinalizer
  onHeap (Heap.finish cycle)

theorem collect_eq_conclude {heap after : Heap σ} {cycle : Cycle}
    (idle : heap.collecting = false) (reclaimed : Heap.reclaim heap = .ok cycle after)
    (queues : Array (Ref → Program σ)) :
    collect ⟨heap, queues⟩ = conclude cycle ⟨after, queues⟩ := by
  have first : onHeap Heap.reclaim ⟨heap, queues⟩ = .ok cycle ⟨after, queues⟩ := by
    simp only [onHeap, reclaimed]
  rw [collect, get_bind]
  simp only [idle, Bool.false_eq_true, if_false]
  rw [bind_of_ok first]
  rfl

end Collector

namespace Heap

variable {σ : Type}

theorem releases_schedulings (entries : List FinalizerEntry) :
    releases (schedulings entries) = [] := by
  rw [releases, List.filterMap_eq_nil_iff]
  intro event member
  obtain ⟨entry, _, rfl⟩ := List.mem_map.mp member
  rfl

theorem grants_schedulings (entries : List FinalizerEntry) :
    grants (schedulings entries) = [] := by
  rw [grants, List.filterMap_eq_nil_iff]
  intro event member
  obtain ⟨entry, _, rfl⟩ := List.mem_map.mp member
  rfl

def blocks (heap : Heap σ) (objects : List Ref) : List (Ref × Word) :=
  objects.map fun object => (object, heap.cost object)

theorem map_fst_blocks (heap : Heap σ) (objects : List Ref) :
    (heap.blocks objects).map Prod.fst = objects := by
  rw [blocks, List.map_map]
  exact List.map_id _

theorem mem_blocks {heap : Heap σ} {objects : List Ref} {object : Ref} {size : Word} :
    (object, size) ∈ heap.blocks objects ↔ object ∈ objects ∧ heap.cost object = size := by
  simp only [blocks, List.mem_map, Prod.mk.injEq]
  constructor
  · rintro ⟨o, member, rfl, rfl⟩
    exact ⟨member, rfl⟩
  · rintro ⟨member, same⟩
    exact ⟨object, member, rfl, same⟩

theorem releasings_eq (heap : Heap σ) (objects : List Ref) :
    heap.releasings objects = (heap.blocks objects).map fun block => .released block.1 block.2 := by
  rw [releasings, blocks, List.map_map]
  rfl

variable [RawMemory σ]

/-- What is true of a heap after a sweep, in terms of the heap that the collection started from and
    of the blocks given back. -/
structure Swept (before after : Heap σ) (freed : List (Ref × Word)) : Prop where
  /-- The registry holds what it held before and what is reached from the root table, the scanners,
      the external objects and the objects of all pending finalizers. -/
  kept : ∀ o, o ∈ after.objects.toList ↔ o ∈ before.objects.toList ∧
    before.types.Reachable before.memory (before.rootObjects ++ before.finalizerObjects) o
  ordered : after.objects.toList.Sublist before.objects.toList
  external : after.external = before.external
  /-- All other objects of the registry are given back, each once and at its own cost. -/
  freed_nodup : (freed.map Prod.fst).Nodup
  freed_iff : ∀ o size, (o, size) ∈ freed ↔ o ∈ before.objects.toList ∧
    o ∉ after.objects.toList ∧ before.types.allocationCost before.memory o = .ok size
  live_kept : ∀ o ∈ after.live, o ∉ freed.map Prod.fst
  host : after.host =
    freed.foldl (fun host block => RawMemory.release block.1 block.2 host) before.host
  journal : ∃ marking, releases marking = [] ∧ after.journal.toList = before.journal.toList ++
    (marking ++ freed.map fun block => .released block.1 block.2)
  lastMarked : after.stats.lastMarked = after.objects.size + after.external.size
  lastFreed : after.stats.lastFreed = freed.length
  lastFreedBytes : after.stats.lastFreedBytes = (freed.map fun block => block.2.toNat).sum

theorem Reclaimed.swept {before after : Heap σ} {cycle : Cycle} (consistent : before.Consistent)
    (h : before.Reclaimed cycle after) :
    before.Swept after (before.blocks before.unreached) := by
  have kept (o : Ref) : o ∈ after.objects.toList ↔
      o ∈ before.objects.toList ∧ before.Retained o := by
    rw [h.objects, mem_reached]
  have nodup := List.nodup_append.mp consistent.live_nodup
  have stats := h.stats
  exact {
    kept
    ordered := by
      rw [h.objects]
      exact before.reached_sublist
    external := h.external
    freed_nodup := by
      rw [map_fst_blocks]
      exact nodup.1.sublist before.unreached_sublist
    freed_iff := by
      intro o size
      rw [mem_blocks, mem_unreached, kept, not_and]
      constructor
      · rintro ⟨⟨member, lost⟩, rfl⟩
        obtain ⟨cost, known⟩ := consistent.sized o (mem_live_of_objects member)
        exact ⟨member, fun _ => lost, by rw [known, cost_eq_of_ok known]⟩
      · rintro ⟨member, lost, known⟩
        exact ⟨⟨member, lost member⟩, cost_eq_of_ok known⟩
    live_kept := by
      intro o member
      rw [map_fst_blocks, mem_unreached, not_and, not_not]
      intro registered
      rcases List.mem_append.mp member with survivor | immortal
      · exact ((kept o).mp survivor).2
      · rw [h.external] at immortal
        exact retained_of_external immortal
    host := by
      rw [h.host, releasedHost, blocks, List.foldl_map]
    journal := by
      refine ⟨_, ?_, by rw [h.journal, releasings_eq]⟩
      simp only [List.cons_append, releases, List.filterMap_cons, Event.release?,
        List.filterMap_append, List.filterMap_nil, List.append_nil]
      exact releases_schedulings cycle.scheduled
    lastMarked := by
      rw [stats, h.external, ← @Array.length_toList _ after.objects, h.objects]
      exact h.marked
    lastFreed := by
      rw [stats, blocks, List.length_map]
      exact h.freed
    lastFreedBytes := by
      rw [stats, blocks, List.map_map]
      exact h.freedBytes }

end Heap

/-- A collection of an idle heap gets through its sweep, and the sweep is exact. Only then do the
    finalizers run. -/
theorem Collector.collect_exact {σ : Type} [RawMemory σ] {heap : Heap σ}
    (queues : Array (Ref → Program σ)) (consistent : heap.Consistent) (traceable : heap.Traceable)
    (idle : heap.collecting = false) :
    ∃ cycle after freed,
      collect ⟨heap, queues⟩ = conclude cycle ⟨after, queues⟩ ∧ heap.Swept after freed := by
  obtain ⟨cycle, after, reclaimed, spec⟩ := Heap.exists_reclaimed consistent traceable
  exact ⟨cycle, after, _, collect_eq_conclude idle reclaimed queues, spec.swept consistent⟩

def Heap.threeNodes : Heap SystemMemory where
  growth := {}
  types := .nodes
  host := { used := 6 }
  memory := ({} : Memory).writeWord .lowest 0 48
  objects := #[.lowest, ⟨48, by decide⟩, ⟨80, by decide⟩]
  roots := { slots := #[.occupied (some .lowest)] }
  heapSize := 48

theorem Heap.consistent_threeNodes : threeNodes.Consistent where
  types_valid := TypeTable.valid_nodes
  live_nodup := by decide
  unmarked := by decide
  sized := by decide +kernel
  heapSize := by decide
  finalizers_nodup := .nil
  finalizers_mem := nofun
  finalizers_pending := nofun
  weak_nodup := .nil
  weak_iff := by
    intro o
    have none_weak : threeNodes.types.weakSlot? threeNodes.memory o = none := TypeTable.weakSlot?_nodes ..
    exact iff_of_false List.not_mem_nil (by simp [none_weak])
  roots_live := by decide

theorem Heap.traceable_threeNodes : threeNodes.Traceable where
  scanners_live := nofun
  children_live := by decide +kernel

theorem Collector.collect_threeNodes : ∃ cycle after freed,
    collect ⟨Heap.threeNodes, #[]⟩ = conclude cycle ⟨after, #[]⟩ ∧
      Heap.threeNodes.Swept after freed :=
  collect_exact #[] Heap.consistent_threeNodes Heap.traceable_threeNodes rfl

end Reclaim
