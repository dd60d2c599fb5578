import Reclaim.Proofs.Run.Reentrancy
import Reclaim.Proofs.Run.Refusals

namespace Reclaim

variable {σ : Type} [RawMemory σ]

section Course

namespace Collector

variable {before after : Collector σ}

theorem Collected.collect_eq_ok (collected : Collected before after) :
    collect before = .ok () after := by
  obtain ⟨idle, reclaimed, called, finished, _, _⟩ := collected
  rw [collect, get_bind, if_neg (by simp [idle]), bind_of_ok (onHeap_of_ok reclaimed),
    bind_of_ok called]
  exact onHeap_of_ok finished

theorem Collected.exists_swept (collected : Collected before after) : ∃ cycle swept,
    Heap.reclaim before.heap = .ok cycle swept ∧ Extends { before with heap := swept } after ∧
      after.heap.types = swept.types ∧ after.heap.collecting = false := by
  have ran := collected.collect_eq_ok
  obtain ⟨idle, _⟩ := collected
  obtain ⟨cycle, swept, history, reclaimed, _, course⟩ := exists_course idle ran
  have ending : (Point.opened before cycle swept).stage.IsEnding := rfl
  obtain ⟨grown, types, _, idle⟩ :=
    Point.extends_of_steps ending (Heap.stats_of_reclaim reclaimed).2.1 course
  exact ⟨cycle, swept, reclaimed, grown, types, idle⟩

theorem Collected.counts (collected : Collected before after) :
    after.heap.stats.collections = before.heap.stats.collections + 1 ∧
      after.heap.collecting = false ∧ after.heap.types = before.heap.types := by
  obtain ⟨cycle, swept, reclaimed, grown, types, idle⟩ := collected.exists_swept
  obtain ⟨types', _, stats⟩ := Heap.stats_of_reclaim reclaimed
  exact ⟨grown.collections.trans (congrArg Stats.collections stats), idle, types.trans types'⟩

end Collector

end Course

section WellFormed

omit [RawMemory σ]

structure Collector.WellFormed (collector : Collector σ) : Prop where
  consistent : collector.heap.Consistent
  accounted : collector.heap.Accounted
  registered : ∀ entry ∈ collector.heap.finalizers.toList,
    entry.queue.index < collector.queues.size

theorem Sound.wellFormed {point : Point σ} (sound : Sound point) : point.collector.WellFormed :=
  ⟨sound.consistent, sound.accounted, sound.registered⟩

variable {collector : Collector σ} (wellFormed : collector.WellFormed)

include wellFormed

theorem Collector.WellFormed.record (remark : LogRecord) :
    WellFormed { collector with heap := collector.heap.record (.logged remark) } where
  consistent := (Heap.aside_record _ remark).consistent wellFormed.consistent
  accounted := (Heap.aside_record _ remark).accounted wellFormed.accounted
  registered := wellFormed.registered

theorem Collector.WellFormed.opening (idle : collector.heap.collecting = false) :
    Sound (.opening collector) where
  consistent := wellFormed.consistent
  accounted := wellFormed.accounted
  collecting := idle
  pending := by
    intro code member
    cases List.mem_singleton.mp member
    trivial
  registered := wellFormed.registered
  due := nofun

end WellFormed

namespace Collector

variable {before middle after : Collector σ} {request : Request} {cost : Word}

def Upheld (collector : Collector σ) : Prop :=
  ∀ later, Relation.ReflTransGen Step (.opening collector) later → later.Honest

def Willing (collector : Collector σ) : Prop :=
  ∀ later, Relation.ReflTransGen Step (.opening collector) later → ¬ later.Balks

section Collected

variable (collected : Collected before after) (formed : before.WellFormed)
  (upheld : before.Upheld)

include collected formed upheld

theorem Collected.wellFormed : after.WellFormed := by
  have ran := collected.collect_eq_ok
  obtain ⟨idle, _⟩ := collected
  obtain ⟨_, _, _, _, first, course⟩ := exists_course idle ran
  exact ((formed.opening idle).of_honest (Runs.of_kept upheld (.head first course))).wellFormed

theorem Collected.exists_reclaimed : ∃ cycle swept,
    Heap.reclaim before.heap = .ok cycle swept ∧ before.heap.Reclaimed cycle swept ∧
      ∀ o ∈ swept.live, o ∈ after.heap.live := by
  obtain ⟨cycle, swept, reclaimed, grown, _⟩ := collected.exists_swept
  obtain ⟨idle, _⟩ := collected
  have traceable := (upheld _ .refl idle).traceable formed.consistent
  exact ⟨cycle, swept, reclaimed, Heap.reclaimed_of_ok formed.consistent traceable reclaimed,
    grown.live⟩

end Collected

def isDue (collector : Collector σ) (request : Request) (cost : Word) : Bool :=
  !request.isExternal && !collector.heap.collecting && collector.heap.exceedsThreshold cost

omit [RawMemory σ] in
theorem isDue_iff : before.isDue request cost = true ↔
    before.heap.collecting = false ∧ ¬ request.isExternal ∧ before.heap.exceedsThreshold cost := by
  simp only [isDue, Bool.and_eq_true, Bool.not_eq_true', Bool.not_eq_true]
  tauto

/-- What the embedder promises for an admitted request: it keeps the contract in a collection that
    is due, and its raw memory grants no block that overlaps one that is held. -/
structure Supports (before : Collector σ) (request : Request) (cost : Word) : Prop where
  upheld : before.isDue request cost = true →
    Upheld { before with heap := before.heap.announced cost }
  fits : ∀ middle, Prepared request cost before middle → ∀ object host,
    RawMemory.request cost middle.heap.host = (.ok object, host) →
      middle.heap.ledger.Fits (object, cost)

theorem Prepared.collected_of_isDue (prepared : Prepared request cost before middle)
    (due : before.isDue request cost = true) :
    Collected { before with heap := before.heap.announced cost } middle := by
  obtain ⟨idle, large⟩ := isDue_iff.mp due
  cases prepared with
  | directly small => exact absurd large small
  | guarded _ busy => exact absurd (idle.symm.trans busy) Bool.false_ne_true
  | collected _ collected => exact collected

theorem Prepared.eq_of_not_isDue (prepared : Prepared request cost before middle)
    (undue : before.isDue request cost = false) : ∃ remarks : List LogRecord, middle = { before with
      heap := { before.heap with
        journal := before.heap.journal ++ (remarks.map Event.logged).toArray } } := by
  cases prepared with
  | directly small =>
    refine ⟨[], ?_⟩
    simp
  | guarded large busy =>
    have pushed (journal : Array Event) (first second : Event) :
        (journal.push first).push second = journal ++ #[first, second] :=
      Array.toList_inj.mp (by simp)
    refine ⟨[.thresholdExceeded cost before.heap.heapSize before.heap.threshold,
      .alreadyCollecting], ?_⟩
    simp only [Heap.announced, Heap.record, pushed, List.map_cons, List.map_nil]
  | collected large collected =>
    obtain ⟨idle, _⟩ := collected
    have due : before.isDue request cost = true := isDue_iff.mpr ⟨idle, large⟩
    rw [undue] at due
    cases due

theorem Prepared.counts (prepared : Prepared request cost before middle) :
    middle.heap.stats.collections =
        before.heap.stats.collections + (before.isDue request cost).toNat ∧
      middle.heap.collecting = before.heap.collecting ∧
      middle.heap.types = before.heap.types := by
  cases due : before.isDue request cost with
  | true =>
    obtain ⟨counted, idle, types⟩ := (prepared.collected_of_isDue due).counts
    exact ⟨counted, idle.trans (isDue_iff.mp due).1.symm, types⟩
  | false =>
    obtain ⟨remarks, rfl⟩ := prepared.eq_of_not_isDue due
    exact ⟨rfl, rfl, rfl⟩

theorem Prepared.wellFormed (prepared : Prepared request cost before middle)
    (formed : before.WellFormed) (supports : before.Supports request cost) :
    middle.WellFormed := by
  cases prepared with
  | directly small => exact formed
  | guarded large busy => exact (formed.record _).record _
  | collected large collected =>
    obtain ⟨idle, _⟩ := id collected
    exact collected.wellFormed (formed.record _) (supports.upheld (isDue_iff.mpr ⟨idle, large⟩))

/-- An admitted request was carried out; `middle` is what there was when the raw memory was asked.
    -/
structure Served (before : Collector σ) (request : Request) (cost : Word) (middle : Collector σ)
    (answer : Except AllocError Ref) (after : Collector σ) : Prop where
  collected : before.isDue request cost = true →
    Collected { before with heap := before.heap.announced cost } middle
  undisturbed : before.isDue request cost = false → ∃ remarks : List LogRecord,
    middle = { before with
      heap := { before.heap with
        journal := before.heap.journal ++ (remarks.map Event.logged).toArray } }
  collections : middle.heap.stats.collections =
    before.heap.stats.collections + (before.isDue request cost).toNat
  collecting : middle.heap.collecting = before.heap.collecting
  asked : ∃ reply, RawMemory.request cost middle.heap.host = (reply, after.heap.host) ∧
    after.heap.journal.toList = middle.heap.journal.toList ++ [.requested cost reply] ∧
    answer = reply.mapError .allocationFailed
  granted : ∀ o, answer = .ok o → middle.heap.Granted after.heap request cost o
  refused : ∀ error, answer = .error error → after = { middle with
    heap := { middle.heap with host := after.heap.host, journal := after.heap.journal } }
  heapSize : after.heap.heapSize.toNat = middle.heap.heapSize.toNat +
    if answer.isOk ∧ ¬ request.isExternal then cost.toNat else 0
  stats : after.heap.stats = middle.heap.stats
  queues : after.queues = middle.queues

theorem Prepared.served {answer : Except AllocError Ref}
    (prepared : Prepared request cost before middle)
    (run : onHeap (Heap.allocateNow request cost) middle = .ok answer after) :
    before.Served request cost middle answer after := by
  obtain ⟨collections, collecting, _⟩ := prepared.counts
  have collected := prepared.collected_of_isDue
  have undisturbed := prepared.eq_of_not_isDue
  obtain ⟨run, queues⟩ := onHeap_eq_ok run
  cases answer with
  | error error =>
    obtain ⟨reason, host, rfl, answer, same⟩ := Heap.allocateNow_eq_refused run
    obtain ⟨heap, _⟩ := after
    cases queues
    cases same
    exact {
      collected, undisturbed, collections, collecting
      asked := ⟨.error reason, answer, Array.toList_push, rfl⟩
      granted := nofun
      refused := fun _ _ => rfl
      heapSize := rfl
      stats := rfl
      queues := rfl }
  | ok o =>
    have granted := Heap.granted_of_allocateNow run
    exact {
      collected, undisturbed, collections, collecting, queues
      asked := ⟨.ok o, granted.answer, granted.journal, rfl⟩
      granted := by
        intro object same
        cases same
        exact granted
      refused := nofun
      heapSize := by
        rw [granted.heapSize]
        cases request.isExternal <;> rfl
      stats := granted.stats }

theorem exists_served {answer : Except AllocError Ref}
    (accepted : request.accept before.heap.types before.queues.size = .ok cost)
    (run : apply (.allocate request) before = .ok answer after) :
    ∃ middle, before.Served request cost middle answer after := by
  rcases allocate_eq_ok run with ⟨_, refused, _⟩ | ⟨_, middle, again, prepared, run⟩
  · rw [accepted] at refused
    cases refused
  · cases accepted.symm.trans again
    exact ⟨middle, prepared.served run⟩

/-- An object has come to be after the collection that its request has waited for: it has had no
    part in that, and has not been freed since. -/
structure BornAfter (before : Collector σ) (request : Request) (cost : Word)
    (middle : Collector σ) (o : Ref) (after : Collector σ) : Prop where
  fresh : o ∉ middle.heap.live
  unmarked : before.isDue request cost = true → ∀ cycle swept,
    Heap.reclaim (before.heap.announced cost) = .ok cycle swept →
      ¬ before.heap.Retained o ∧ o ∉ swept.live ∧ ∀ entry ∈ cycle.scheduled, entry.object ≠ o
  live : o ∈ after.heap.live
  flags : after.heap.memory.flags o = if request.isExternal then .external else .empty
  held : (o, cost) ∈ after.heap.ledger.held

section Granted

variable {object : Ref} {queues : Nat} {descriptor : Descriptor}
  (prepared : Prepared request cost before middle) (formed : before.WellFormed)
  (supports : before.Supports request cost)
  (granted : middle.heap.Granted after.heap request cost object)
  (admitted : request.Admitted middle.heap.types queues cost descriptor)

include prepared formed supports granted admitted

theorem Prepared.fresh : object ∉ middle.heap.live := by
  obtain ⟨size, _, total⟩ := admitted.size
  have large := le_of_allocationCost? total
  have fits := supports.fits middle prepared object _ granted.answer
  exact (prepared.wellFormed formed supports).accounted.fresh_of_fits fits (by omega)

theorem Prepared.bornAfter : before.BornAfter request cost middle object after := by
  have fresh := prepared.fresh formed supports granted admitted
  refine ⟨fresh, ?_, (granted.mem_live object).mpr (.inr rfl), granted.flags, ?_⟩
  · intro due cycle swept reclaimed
    obtain ⟨_, _, again, spec, kept⟩ := (prepared.collected_of_isDue due).exists_reclaimed
      (formed.record _) (supports.upheld due)
    cases reclaimed.symm.trans again
    have consistent := (formed.record
      (.thresholdExceeded cost before.heap.heapSize before.heap.threshold)).consistent
    have traceable := ((supports.upheld due _ .refl) (isDue_iff.mp due).1).traceable consistent
    -- what the collection has kept or scheduled is live when the block is granted
    refine ⟨?_, fun member => fresh (kept object member), ?_⟩
    · intro retained
      exact fresh (kept object (spec.mem_live.mpr ⟨retained.live consistent traceable, retained⟩))
    · rintro entry scheduled rfl
      have registered := spec.mem_objects_of_scheduled consistent scheduled
      exact fresh (kept _ (Heap.mem_live_of_objects registered))
  · rw [granted.ledger_eq]
    exact List.mem_append_right _ List.mem_cons_self

end Granted

theorem exists_prepared
    (accepted : request.accept before.heap.types before.queues.size = .ok cost)
    (formed : before.WellFormed) (supports : before.Supports request cost)
    (willing : before.isDue request cost = true →
      Willing { before with heap := before.heap.announced cost }) :
    ∃ middle, Prepared request cost before middle ∧
      apply (.allocate request) before = onHeap (Heap.allocateNow request cost) middle := by
  by_cases large : ¬ request.isExternal ∧ before.heap.exceedsThreshold cost
  · cases busy : before.heap.collecting with
    | true =>
      refine ⟨_, .guarded large busy, ?_⟩
      exact (allocate_of_exceed _ accepted large).trans
        (bind_of_ok (collect_announced_of_busy busy cost))
    | false =>
      have due : before.isDue request cost = true := isDue_iff.mpr ⟨busy, large⟩
      obtain ⟨middle, history, _, result⟩ := ((formed.record _).opening busy).ends
        fun later reached => ⟨supports.upheld due later reached, willing due later reached⟩
      obtain ⟨_, _, collected, finished⟩ := bind_eq_ok.mp result
      cases finished
      refine ⟨middle, .collected large (collected_of_ok busy collected), ?_⟩
      exact (allocate_of_exceed _ accepted large).trans (bind_of_ok collected)
  · exact ⟨before, .directly large, allocate_of_accept _ accepted large⟩

theorem Prepared.exists_answer (prepared : Prepared request cost before middle)
    (formed : before.WellFormed) (supports : before.Supports request cost) :
    ∃ answer after, onHeap (Heap.allocateNow request cost) middle = .ok answer after := by
  cases run : Heap.allocateNow request cost middle.heap with
  | ok answer heap => exact ⟨answer, _, onHeap_of_ok run⟩
  | error fault heap =>
    -- only an overflow of the heap size could fail here, and held blocks fit into the address space
    obtain ⟨object, host, granted, full⟩ := Heap.allocateNow_eq_error run
    have formed := prepared.wellFormed formed supports
    have fits := supports.fits middle prepared object host granted
    have room := formed.accounted.room formed.consistent fits
    exact absurd full (Nat.not_le.mpr room)

theorem Prepared.admitted (prepared : Prepared request cost before middle)
    (accepted : request.accept before.heap.types before.queues.size = .ok cost) :
    ∃ descriptor, request.Admitted middle.heap.types middle.queues.size cost descriptor := by
  have more : before.queues.size ≤ middle.queues.size := by
    cases due : before.isDue request cost with
    | true =>
      obtain ⟨_, _, _, grown, _⟩ := (prepared.collected_of_isDue due).exists_swept
      obtain ⟨added, queues⟩ := grown.queues
      rw [← Array.length_toList, ← Array.length_toList, queues, List.length_append]
      exact Nat.le_add_right _ _
    | false =>
      obtain ⟨remarks, rfl⟩ := prepared.eq_of_not_isDue due
      exact Nat.le_refl _
  obtain ⟨descriptor, admitted⟩ := Request.exists_admitted accepted
  rw [prepared.counts.2.2]
  exact ⟨descriptor, admitted.mono more⟩

theorem Prepared.wellFormed_of_answer {answer : Except AllocError Ref}
    (prepared : Prepared request cost before middle) (formed : before.WellFormed)
    (supports : before.Supports request cost)
    (accepted : request.accept before.heap.types before.queues.size = .ok cost)
    (run : onHeap (Heap.allocateNow request cost) middle = .ok answer after) :
    after.WellFormed := by
  obtain ⟨descriptor, admitted⟩ := prepared.admitted accepted
  obtain ⟨consistent, accounted, registered⟩ := prepared.wellFormed formed supports
  obtain ⟨run, queues⟩ := onHeap_eq_ok run
  rcases Heap.allocateNow_eq_ok run with ⟨_, _, aside, _⟩ | ⟨object, _, granted⟩
  · exact ⟨aside.consistent consistent, aside.accounted accounted,
      queues ▸ aside.finalizers ▸ registered⟩
  · have fresh := prepared.fresh formed supports granted admitted
    have fits := supports.fits middle prepared object _ granted.answer
    refine ⟨granted.consistent consistent fresh admitted,
      granted.accounted accounted fresh fits admitted, ?_⟩
    intro entry member
    rw [granted.finalizers, List.mem_append] at member
    rw [queues]
    rcases member with old | new
    · exact registered entry old
    · obtain ⟨finalizer, wanted, rfl⟩ := Request.mem_entries.mp new
      exact admitted.queue finalizer wanted

/-- The growth policy. When an admitted request has been answered, one collection has been run for
    it if the heap was idle and the cost took it past the threshold, and none otherwise. It has run
    to its end, and after that the raw memory has been asked, once and for the cost, whatever was
    freed. With the block that it grants, the heap size is that after the collection and the cost.
    External objects wait for no collection and are not counted; callbacks meet the same as
    everyone else. If the embedder keeps its promises and no callback gives up, there is an answer,
    and a new object has had no part in the collection. -/
theorem growth_policy
    (accepted : request.accept before.heap.types before.queues.size = .ok cost) :
    (∀ answer after, apply (.allocate request) before = .ok answer after →
      ∃ middle, before.Served request cost middle answer after) ∧
    (request.isExternal → ∀ answer after, apply (.allocate request) before = .ok answer after →
      after.heap.stats = before.heap.stats ∧ after.heap.heapSize = before.heap.heapSize) ∧
    (before.heap.collecting = true →
      perform collectWithin (.allocate request) before = apply (.allocate request) before) ∧
    (before.WellFormed → before.Supports request cost →
      (before.isDue request cost = true →
        Willing { before with heap := before.heap.announced cost }) →
      ∃ middle answer after, apply (.allocate request) before = .ok answer after ∧
        before.Served request cost middle answer after ∧ after.WellFormed ∧
        ∀ o, answer = .ok o → before.BornAfter request cost middle o after) := by
  refine ⟨fun answer after run => exists_served accepted run, ?_,
    fun busy => perform_within busy _, ?_⟩
  · intro external answer after run
    obtain ⟨middle, served⟩ := exists_served accepted run
    have undue : before.isDue request cost = false := by simp [isDue, external]
    obtain ⟨remarks, rfl⟩ := served.undisturbed undue
    refine ⟨served.stats, UInt64.toNat_inj.mp ?_⟩
    rw [served.heapSize]
    simp [external]
  · intro formed supports willing
    obtain ⟨middle, prepared, same⟩ := exists_prepared accepted formed supports willing
    obtain ⟨answer, after, run⟩ := prepared.exists_answer formed supports
    obtain ⟨descriptor, admitted⟩ := prepared.admitted accepted
    refine ⟨middle, answer, after, same.trans run, prepared.served run,
      prepared.wellFormed_of_answer formed supports accepted run, ?_⟩
    rintro o rfl
    exact prepared.bornAfter formed supports ((prepared.served run).granted o rfl) admitted

def crowded : Collector Shelves :=
  (Point.after 16 .tour).collector

/-- A row is asked for, and a collection is due. It calls the finalizer and frees the garbage, whose
    block is granted for the row. -/
theorem growth_policy_tour : ∃ middle after,
    apply (.allocate (.row 4)) crowded = .ok (.ok (.placed 320)) after ∧
    crowded.Served (.row 4) 48 middle (.ok (.placed 320)) after ∧ after.WellFormed ∧
    (middle.heap.stats.collections = 1 ∧ middle.heap.stats.finalizersRun = 1 ∧
      middle.heap.stats.lastFreed = 1) ∧
    crowded.BornAfter (.row 4) 48 middle (.placed 320) after := by
  let announced : Collector Shelves := { crowded with heap := crowded.heap.announced 48 }
  obtain ⟨sound, slotted, refs⟩ := Point.tidy_tour.of_runs (.to_after Point.careful_tour 16)
  have formed : crowded.WellFormed := sound.wellFormed
  have due : crowded.isDue (.row 4) 48 = true := by decide +kernel
  have opening : Tidy TypeTable.mixedSlots (.opening announced) :=
    ⟨(formed.record _).opening (isDue_iff.mp due).1, slotted, refs⟩
  have kept := opening.keeps 20 (by decide +kernel)
  have fits : Code.Careful TypeTable.mixedSlots (final (collect announced)).heap
      (.allocate (.row 4) 48 fun _ => .done) := by decide +kernel
  have counted : (final (collect announced)).heap.stats.collections = 1 ∧
      (final (collect announced)).heap.stats.finalizersRun = 1 ∧
      (final (collect announced)).heap.stats.lastFreed = 1 := by decide +kernel
  have supports : crowded.Supports (.row 4) 48 := by
    refine ⟨fun _ later reached => (kept later reached).1, fun middle prepared => ?_⟩
    rw [(prepared.collected_of_isDue due).collect_eq_ok] at fits
    exact fits
  have accepted : (Request.row 4).accept crowded.heap.types crowded.queues.size = .ok 48 := by
    decide +kernel
  obtain ⟨middle, answer, after, run, served, formed, born⟩ := (growth_policy accepted).2.2.2 formed
    supports fun _ later reached => (kept later reached).2
  obtain ⟨_, known⟩ := exists_of_granted? (by decide +kernel :
    granted? (apply (.allocate (.row 4)) crowded) = some (.placed 320))
  cases known.symm.trans run
  rw [(served.collected due).collect_eq_ok] at counted
  exact ⟨middle, after, run, served, formed, counted, born _ rfl⟩

end Collector

end Reclaim
