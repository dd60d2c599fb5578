import Reclaim.Proofs.Run.Contract

namespace Reclaim

variable {σ : Type}

namespace Stage

def isCollecting : Stage σ → Bool
  | .code .outside _ => false
  | .code (.callback _ _) _ => true
  | .between _ => true

def entries : Stage σ → List FinalizerEntry
  | .code .outside _ => []
  | .code (.callback entry collection) _ => entry :: collection.waiting
  | .between collection => collection.waiting

def codes : Stage σ → List (Code σ)
  | .code .outside running => [running]
  | .code (.callback _ collection) running => [running, collection.caller]
  | .between collection => [collection.caller]

end Stage

structure Sound (point : Point σ) : Prop where
  consistent : point.collector.heap.Consistent
  accounted : point.collector.heap.Accounted
  collecting : point.collector.heap.collecting = point.stage.isCollecting
  pending : ∀ code ∈ point.stage.codes,
    code.Pending point.collector.heap.types point.collector.queues.size
  registered : ∀ entry ∈ point.collector.heap.finalizers.toList,
    entry.queue.index < point.collector.queues.size
  due : ∀ entry ∈ point.stage.entries,
    entry.object ∈ point.collector.heap.objects.toList ∧
      entry.queue.index < point.collector.queues.size

variable [RawMemory σ]

namespace Effect

variable {before : Collector σ} {code : Code σ} {new : List (Happening σ)} {after : Heap σ}

theorem types_eq (effect : Effect before code new after) : after.types = before.heap.types := by
  cases effect with
  | aside h => exact h.types
  | wrote called writes h => rw [h.after_eq]
  | granted admitted fits h => exact h.types
  | cleared h => exact h.types

omit [RawMemory σ] in
theorem fresh_of_fits (accounted : before.heap.Accounted) {request : Request} {cost : Word}
    {object : Ref} {descriptor : Descriptor} {queues : Nat}
    (admitted : request.Admitted before.heap.types queues cost descriptor)
    (fits : before.heap.ledger.Fits (object, cost)) : object ∉ before.heap.live := by
  obtain ⟨size, _, total⟩ := admitted.size
  have large := le_of_allocationCost? total
  exact accounted.fresh_of_fits fits (by omega)

theorem consistent (effect : Effect before code new after) (consistent : before.heap.Consistent)
    (accounted : before.heap.Accounted) : after.Consistent := by
  cases effect with
  | aside h => exact h.consistent consistent
  | wrote called writes h => exact h.consistent consistent
  | granted admitted fits h =>
    exact h.consistent consistent (fresh_of_fits accounted admitted fits) admitted
  | cleared h => exact h.consistent consistent.types_valid

theorem accounted (effect : Effect before code new after) (consistent : before.heap.Consistent)
    (accounted : before.heap.Accounted) : after.Accounted := by
  cases effect with
  | aside h => exact h.accounted accounted
  | wrote called writes h => exact h.accounted accounted
  | granted admitted fits h =>
    exact h.accounted accounted (fresh_of_fits accounted admitted fits) fits admitted
  | cleared h => exact h.accounted accounted consistent.live_nodup

theorem mem_objects (effect : Effect before code new after)
    (busy : before.heap.collecting = true) {o : Ref} (member : o ∈ before.heap.objects.toList) :
    o ∈ after.objects.toList := by
  cases effect with
  | aside h => rwa [h.objects]
  | wrote called writes h => rwa [h.after_eq]
  | granted admitted fits h =>
    rw [h.objects]
    exact List.mem_append_left _ member
  | cleared h =>
    rw [h.idle] at busy
    cases busy

theorem registered (effect : Effect before code new after)
    (registered : ∀ entry ∈ before.heap.finalizers.toList,
      entry.queue.index < before.queues.size) :
    ∀ entry ∈ after.finalizers.toList, entry.queue.index < before.queues.size := by
  intro entry member
  cases effect with
  | aside h => exact registered entry (h.finalizers ▸ member)
  | wrote called writes h =>
    rw [h.after_eq] at member
    exact registered entry member
  | granted admitted fits h =>
    rw [h.finalizers, List.mem_append] at member
    rcases member with old | new
    · exact registered entry old
    · obtain ⟨finalizer, wanted, rfl⟩ := Request.mem_entries.mp new
      exact admitted.queue finalizer wanted
  | cleared h =>
    rw [h.finalizers] at member
    cases member

end Effect

omit [RawMemory σ] in
theorem Heap.finish_eq_ok {heap after : Heap σ} {cycle : Cycle}
    (run : Heap.finish cycle heap = .ok () after) :
    heap.Aside after ∧ after.collecting = false := by
  obtain ⟨baseline, record, rfl⟩ : ∃ baseline record, after =
      { heap with previousHeapSize := baseline, collecting := false }.record (.logged record) := by
    cases run
    exact ⟨_, _, rfl⟩
  exact ⟨⟨rfl, rfl, rfl, rfl, rfl, rfl, rfl, fun _ => .inl, [.logged record],
    by simp [Heap.record], rfl, rfl⟩, rfl⟩

theorem Heap.reclaimed_of_ok {heap after : Heap σ} {cycle : Cycle} (consistent : heap.Consistent)
    (traceable : heap.Traceable) (run : Heap.reclaim heap = .ok cycle after) :
    heap.Reclaimed cycle after := by
  obtain ⟨cycle', after', run', spec⟩ := Heap.exists_reclaimed consistent traceable
  rw [run] at run'
  cases run'
  exact spec

omit [RawMemory σ] in
theorem Sound.of_aside {point : Point σ} {heap : Heap σ} {stage : Stage σ}
    {history : List (Happening σ)} (sound : Sound point) (h : point.collector.heap.Aside heap)
    (collecting : heap.collecting = stage.isCollecting)
    (pending : ∀ code ∈ stage.codes,
      code.Pending point.collector.heap.types point.collector.queues.size)
    (due : ∀ entry ∈ stage.entries, entry ∈ point.stage.entries) :
    Sound ⟨{ point.collector with heap }, stage, history⟩ where
  consistent := h.consistent sound.consistent
  accounted := h.accounted sound.accounted
  collecting := collecting
  pending := by
    rw [h.types]
    exact pending
  registered := by
    rw [h.finalizers]
    exact sound.registered
  due := by
    rw [h.objects]
    exact fun entry member => sound.due entry (due entry member)

theorem Sound.code {before after : Collector σ} {code rest : Code σ} {new : List (Happening σ)}
    {place : Place σ} {history : List (Happening σ)}
    (sound : Sound ⟨before, .code place code, history⟩) (lawful : code.Lawful before.heap)
    (step : CodeStep before code new after rest) :
    Sound ⟨after, .code place rest, history ++ new⟩ := by
  have member : code ∈ (Stage.code place code).codes := by
    cases place <;> exact List.mem_cons_self
  obtain ⟨effect, same, pending⟩ := step.effect sound.consistent lawful (sound.pending code member)
  obtain ⟨added, queues⟩ := step.queues
  -- queues are only added, so what is registered keeps its queue
  have more : before.queues.size ≤ after.queues.size := by
    rw [← Array.length_toList, ← Array.length_toList, queues, List.length_append]
    exact Nat.le_add_right _ _
  have types := effect.types_eq
  exact {
    consistent := effect.consistent sound.consistent sound.accounted
    accounted := effect.accounted sound.consistent sound.accounted
    collecting := by
      refine same.trans (sound.collecting.trans ?_)
      cases place <;> rfl
    pending := by
      intro other member
      rw [types]
      cases place with
      | outside =>
        rw [List.mem_singleton.mp member]
        exact pending.mono more
      | callback entry collection =>
        rcases List.mem_cons.mp member with rfl | member
        · exact pending.mono more
        · exact (sound.pending other (List.mem_cons_of_mem _ member)).mono more
    registered := by
      intro entry member
      exact Nat.lt_of_lt_of_le (effect.registered sound.registered entry member) more
    due := by
      intro entry member
      cases place with
      | outside => cases member
      | callback current collection =>
        obtain ⟨live, queue⟩ := sound.due entry member
        exact ⟨effect.mem_objects sound.collecting live, Nat.lt_of_lt_of_le queue more⟩ }

theorem Sound.reclaim {collector : Collector σ} {cycle : Cycle} {heap : Heap σ} {next : Code σ}
    {history more : List (Happening σ)}
    (sound : Sound ⟨collector, .code .outside (.collect next), history⟩)
    (h : collector.heap.Reclaimed cycle heap) :
    Sound ⟨{ collector with heap }, .between ⟨cycle, cycle.scheduled, next⟩, more⟩ where
  consistent := h.consistent sound.consistent
  accounted := h.accounted sound.accounted sound.consistent
  collecting := h.collecting
  pending := by
    intro code member
    rw [List.mem_singleton.mp member, h.types]
    exact sound.pending (.collect next) List.mem_cons_self
  registered := by
    intro entry member
    exact sound.registered entry (h.divides.kept_sublist.subset member)
  due := by
    intro entry member
    exact ⟨h.mem_objects_of_scheduled sound.consistent member,
      sound.registered entry (h.divides.scheduled_sublist.subset member)⟩

theorem Sound.step {point next : Point σ} (sound : Sound point) (lawful : point.Lawful)
    (step : Step point next) : Sound next := by
  -- outside of sweeps and embedder code, steps touch the journal and counters only
  cases step with
  | code step place history => exact sound.code lawful step
  | @nested collector place busy next history =>
    refine sound.of_aside (Heap.aside_record _ _) ?_ ?_ ?_
    · refine sound.collecting.trans ?_
      cases place <;> rfl
    · intro code member
      cases place with
      | outside =>
        rw [List.mem_singleton.mp member]
        exact sound.pending (.collect next) List.mem_cons_self
      | callback entry collection =>
        rcases List.mem_cons.mp member with rfl | member
        · exact sound.pending (.collect code) List.mem_cons_self
        · exact sound.pending code (List.mem_cons_of_mem _ member)
    · intro entry member
      cases place <;> exact member
  | reclaim idle reclaimed next history =>
    exact sound.reclaim (Heap.reclaimed_of_ok sound.consistent (lawful idle) reclaimed)
  | call found cycle waiting caller history =>
    refine sound.of_aside (Heap.aside_record _ _) sound.collecting ?_ ?_
    · intro code member
      rcases List.mem_cons.mp member with rfl | member
      · trivial
      · exact sound.pending code member
    · intro entry member
      exact member
  | «return» collector entry collection history =>
    refine sound.of_aside ⟨rfl, rfl, rfl, rfl, rfl, rfl, rfl, fun _ => .inl, [], by simp, rfl,
      rfl⟩ sound.collecting ?_ ?_
    · intro code member
      exact sound.pending code (List.mem_cons_of_mem _ member)
    · intro other member
      exact List.mem_cons_of_mem _ member
  | finish finished caller history =>
    obtain ⟨aside, idle⟩ := Heap.finish_eq_ok finished
    refine sound.of_aside aside idle sound.pending ?_
    intro entry member
    cases member

omit [RawMemory σ] in
theorem Heap.consistent_create {types : TypeTable} (valid : types.Valid) (growth : Growth)
    (host : σ) : Heap.Consistent { growth, types, host } where
  types_valid := valid
  live_nodup := List.nodup_nil
  unmarked := fun _ member => nomatch member
  sized := fun _ member => nomatch member
  heapSize := rfl
  finalizers_nodup := List.nodup_nil
  finalizers_mem := fun _ member => nomatch member
  finalizers_pending := fun _ member => nomatch member
  weak_nodup := List.nodup_nil
  weak_iff := fun _ => by
    refine iff_of_false List.not_mem_nil ?_
    rintro ⟨member, _⟩
    cases member
  roots_live := fun _ member => nomatch member

omit [RawMemory σ] in
theorem Heap.accounted_create (types : TypeTable) (growth : Growth) (host : σ) :
    Heap.Accounted { growth, types, host } where
  strays := rfl
  held_perm := .refl _
  objects_sublist := .refl _
  external_sublist := .refl _
  sizes := fun _ member => nomatch member
  apart := .nil
  bounded := fun _ member => nomatch member

omit [RawMemory σ] in
theorem Collector.create_eq_ok {types : TypeTable} {growth : Growth} {host : σ}
    {collector : Collector σ} (created : create types growth host = .ok collector) :
    collector = { heap := { growth, types, host } } := by
  simp only [create, Heap.create, bind, Except.bind] at created
  cases checked : growth.validate with
  | error fault =>
    rw [checked] at created
    cases created
  | ok _ =>
    rw [checked] at created
    cases created
    rfl

omit [RawMemory σ] in
theorem Sound.start {types : TypeTable} (valid : types.Valid) (growth : Growth) (host : σ)
    (program : Program σ) : Sound (.start { heap := { growth, types, host } } program) where
  consistent := Heap.consistent_create valid growth host
  accounted := Heap.accounted_create types growth host
  collecting := rfl
  pending := by
    intro code member
    rw [List.mem_singleton.mp member]
    trivial
  registered := fun _ member => nomatch member
  due := fun _ member => nomatch member

theorem Sound.of_runs {point last : Point σ} (sound : Sound point)
    (run : Runs Point.Lawful point last) : Sound last := by
  induction run with
  | refl => exact sound
  | tail _ step ih => exact ih.step step.1 step.2

end Reclaim
