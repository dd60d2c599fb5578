import Reclaim.Proofs.Run.Convergence

namespace Reclaim

namespace Heap

variable {σ : Type} [RawMemory σ] {before after swept : Heap σ} {cycle : Cycle}

theorem Round.clean_of_unscheduled (round : before.Round cycle swept after)
    (ignores : before.types.IgnoresWeakSlots) (valid : before.types.Valid)
    (none_called : cycle.scheduled = []) : after.Clean := by
  apply round.clean ignores valid
  by_contra due
  exact round.exists_called due none_called

theorem Reclaimed.exists_round_of_unscheduled (queues : Array (Ref → Program σ))
    (h : before.Reclaimed cycle swept) (idle : before.collecting = false)
    (run : reclaim before = .ok cycle swept) (none_called : cycle.scheduled = [])
    (scans : ∀ scan ∈ before.scanners.toList, scan swept.host = scan before.host) :
    ∃ after, Collector.collect ⟨before, queues⟩ = .ok () ⟨after, queues⟩ ∧
      before.Round cycle swept after := by
  apply h.exists_round idle run
  · rw [none_called]
    rfl
  · exact scans
  · exact fun _ => ⟨rfl, rfl⟩

theorem Clean.host_eq (clean : before.Clean) (h : before.Reclaimed cycle after) :
    after.host = before.host := by
  rw [h.host, clean.unreached_eq_nil]
  rfl

theorem Round.marked_eq {next : Heap σ} {again : Cycle} (round : before.Round cycle swept after)
    (clean : after.Clean) (h : after.Reclaimed again next) : again.marked = cycle.marked := by
  rw [h.marked, round.reclaimed.marked, clean.reached_eq, round.objects, round.external]

end Heap

/-- If a collection of an idle heap schedules no finalizer, then another one right after it, with
    the scanners listing what they listed, frees nothing, empties no weak slot, schedules nothing
    and marks as many objects. It changes nothing but the number of collections, the counts of the
    last one, and the log. -/
theorem Collector.collect_idempotent {σ : Type} [RawMemory σ] {heap swept : Heap σ} {cycle : Cycle}
    (queues : Array (Ref → Program σ)) (consistent : heap.Consistent) (traceable : heap.Traceable)
    (ignores : heap.types.IgnoresWeakSlots) (idle : heap.collecting = false)
    (reclaimed : Heap.reclaim heap = .ok cycle swept) (none_called : cycle.scheduled = [])
    (scans : ∀ scan ∈ heap.scanners.toList, scan swept.host = scan heap.host) :
    ∃ first again swept' second, collect ⟨heap, queues⟩ = .ok () ⟨first, queues⟩ ∧
      Heap.reclaim first = .ok again swept' ∧
      collect ⟨first, queues⟩ = .ok () ⟨second, queues⟩ ∧
      again.freed = 0 ∧ again.weakrefsCleared = 0 ∧ again.scheduled = [] ∧
      second.stats.lastMarked = first.stats.lastMarked ∧ first.Settled second := by
  have spec := Heap.reclaimed_of_ok consistent traceable reclaimed
  obtain ⟨first, ran, round⟩ :=
    spec.exists_round_of_unscheduled queues idle reclaimed none_called scans
  have clean := round.clean_of_unscheduled ignores consistent.types_valid none_called
  have consistent' := round.consistent consistent
  have idle' : first.collecting = false := by
    rw [round.after_eq]
    rfl
  obtain ⟨again, swept', reclaimed', spec'⟩ :=
    Heap.exists_reclaimed consistent' (round.traceable ignores consistent traceable scans)
  have none_called' : again.scheduled = [] := spec'.scheduled_eq_nil clean.stray
  obtain ⟨second, ran', round'⟩ := spec'.exists_round_of_unscheduled queues idle' reclaimed'
    none_called' fun scan _ => congrArg scan (clean.host_eq spec')
  have marked := round.marked_eq clean spec'
  refine ⟨first, again, swept', second, ran, reclaimed', ran', ?_, ?_, none_called', ?_,
    round'.settled_of_idle clean consistent' idle'⟩
  · rw [spec'.freed, clean.unreached_eq_nil, List.length_nil]
  · rw [spec'.weakrefsCleared, clean.bereft, List.length_nil]
  · rw [round'.stats none_called', round.stats none_called]
    exact marked

def Heap.guardedHolders : Heap SystemMemory :=
  { threeHolders with finalizers := #[{ object := .placed 48, queue := ⟨0⟩, light := false }] }

theorem Heap.consistent_guardedHolders : guardedHolders.Consistent :=
  { consistent_threeHolders with
    finalizers_nodup := by decide
    finalizers_mem := by decide
    finalizers_pending := by decide }

theorem Heap.traceable_guardedHolders : guardedHolders.Traceable :=
  { traceable_threeHolders with }

theorem Heap.stray_guardedHolders : guardedHolders.stray = [] := by
  rw [List.eq_nil_iff_forall_not_mem]
  intro entry member
  obtain ⟨registered, dead⟩ := mem_stray.mp member
  cases List.mem_singleton.mp registered
  have root : guardedHolders.types.Reachable guardedHolders.memory guardedHolders.rootObjects
      .lowest := .start (by decide)
  exact dead (root.child rfl (by decide : Ref.placed 48 ∈ [Ref.placed 48]))

theorem Collector.collect_idempotent_guarded : ∃ cycle swept,
    Heap.reclaim .guardedHolders = .ok cycle swept ∧ cycle.scheduled = [] ∧
    ∃ first again swept' second,
      collect ⟨.guardedHolders, #[Program.nudge]⟩ = .ok () ⟨first, #[.nudge]⟩ ∧
      Heap.reclaim first = .ok again swept' ∧
      collect ⟨first, #[Program.nudge]⟩ = .ok () ⟨second, #[.nudge]⟩ ∧
      again.freed = 0 ∧ again.weakrefsCleared = 0 ∧ again.scheduled = [] ∧
      second.stats.lastMarked = first.stats.lastMarked ∧ first.Settled second := by
  obtain ⟨cycle, swept, reclaimed, spec⟩ :=
    Heap.exists_reclaimed Heap.consistent_guardedHolders Heap.traceable_guardedHolders
  have none_called := spec.scheduled_eq_nil Heap.stray_guardedHolders
  exact ⟨cycle, swept, reclaimed, none_called,
    collect_idempotent #[Program.nudge] Heap.consistent_guardedHolders
      Heap.traceable_guardedHolders TypeTable.ignoresWeakSlots_holders rfl reclaimed none_called
      nofun⟩

end Reclaim
