import Reclaim.Proofs.Heap.Access
import Reclaim.Proofs.Run.RawMemory

namespace Reclaim

def Fault.isInternal : Fault → Bool
  | overflow _ | unregisteredType _ | unrepresentableSize _ | survivingOutsideCollection _
  | scheduledTwice _ | noWeakSlot _ _ | heapSizeUnderflow _ _ | missingQueue _ _ => true
  | _ => false

variable {σ : Type}

/-- What a collection may expect of the embedder: its scanners list live objects, and its trace
    callbacks report live objects for whatever view of a live object they are given. That there is
    such a view is not part of the promise. -/
structure Heap.Truthful (heap : Heap σ) : Prop where
  scanners_live : ∀ scan ∈ heap.scanners.toList, ∀ o ∈ scan heap.host, o ∈ heap.live
  traces_live : ∀ o ∈ heap.live, ∀ view descriptor, heap.view o = .ok view →
    heap.types.get? view.typeId = some descriptor →
      ∃ children, descriptor.trace view = .ok children ∧ ∀ c ∈ children, c ∈ heap.live

theorem Heap.Truthful.traceable {heap : Heap σ} (truthful : heap.Truthful)
    (consistent : heap.Consistent) : heap.Traceable where
  scanners_live := truthful.scanners_live
  children_live := by
    intro o live
    obtain ⟨descriptor, length, readable⟩ := consistent.readable live
    rw [readable.children_eq]
    exact truthful.traces_live o live _ descriptor readable.view_eq_ok readable.known

theorem Heap.Traceable.truthful {heap : Heap σ} (traceable : heap.Traceable) : heap.Truthful where
  scanners_live := traceable.scanners_live
  traces_live := by
    intro o live view descriptor seen known
    obtain ⟨children, reported, inside⟩ := traceable.children_live o live
    have expected : heap.types.expect view.typeId = .ok descriptor := by
      rw [TypeTable.expect, known]
    have viewed : heap.types.view heap.memory o = .ok view := seen
    simp only [TypeTable.children, viewed, expected, bind, Except.bind] at reported
    exact ⟨children, reported, inside⟩

variable [RawMemory σ]

/-- The contract of an embedder, with nothing in it that the collector has to see to itself. -/
def Code.Honest (heap : Heap σ) : Code σ → Prop
  | .collect _ => heap.collecting = false → heap.Truthful
  | code => code.Lawful heap

def Point.Honest (point : Point σ) : Prop :=
  match point.stage with
  | .code _ code => code.Honest point.collector.heap
  | .between _ => True

/-- The embedder gives up at a point: its code says so, or it asks for something other than a
    collection or an allocation and is refused. -/
def Point.Balks (point : Point σ) : Prop :=
  match point.stage with
  | .code _ (.run (.fail _)) => True
  | .code _ (.run (.call operation _)) => operation.isPlain = true ∧
    ∃ fault after, Collector.apply operation point.collector = .error fault after
  | _ => False

instance : DecidablePred (Point.Balks (σ := σ))
  | ⟨_, .code _ (.run (.fail _)), _⟩ => .isTrue trivial
  | ⟨collector, .code _ (.run (.call operation _)), _⟩ =>
    match answer : Collector.apply operation collector with
    | .ok _ _ => .isFalse fun ⟨_, _, _, failed⟩ => nomatch answer.symm.trans failed
    | .error _ _ => decidable_of_iff (operation.isPlain = true)
        ⟨fun plain => ⟨plain, _, _, answer⟩, And.left⟩
  | ⟨_, .code _ (.run .done), _⟩ | ⟨_, .code _ (.run (.inspect _)), _⟩
  | ⟨_, .code _ (.run (.addQueue _ _)), _⟩ | ⟨_, .code _ (.run (.addScanner _ _)), _⟩
  | ⟨_, .code _ (.run (.host _ _)), _⟩ | ⟨_, .code _ (.run (.poke _ _)), _⟩
  | ⟨_, .code _ (.allocate _ _ _), _⟩ | ⟨_, .code _ (.collect _), _⟩ | ⟨_, .between _, _⟩ =>
    .isFalse id

theorem Point.Honest.lawful {point : Point σ} (honest : point.Honest)
    (consistent : point.collector.heap.Consistent) : point.Lawful := by
  obtain ⟨collector, stage, history⟩ := point
  cases stage with
  | between collection => trivial
  | code place code =>
    cases code with
    | run program => exact honest
    | allocate request cost next => exact honest
    | collect next => exact fun idle => (honest idle).traceable consistent

theorem Point.Lawful.honest {point : Point σ} (lawful : point.Lawful) : point.Honest := by
  obtain ⟨collector, stage, history⟩ := point
  cases stage with
  | between collection => trivial
  | code place code =>
    cases code with
    | run program => exact lawful
    | allocate request cost next => exact lawful
    | collect next => exact fun idle => (lawful idle).truthful

theorem Runs.honest {point last : Point σ} (run : Runs Point.Lawful point last) :
    Runs Point.Honest point last :=
  Relation.ReflTransGen.mono (fun _ _ step => ⟨step.1.honest, step.2⟩) _ _ run

theorem Sound.of_honest {point last : Point σ} (sound : Sound point)
    (run : Runs Point.Honest point last) : Sound last := by
  induction run with
  | refl => exact sound
  | tail _ step ih => exact ih.step (step.1.lawful ih.consistent) step.2

section Plain

omit [RawMemory σ] in
theorem RootTable.fault_of_set {table : RootTable} {id : RootId} {object : Option Ref}
    {fault : Fault} (failed : table.set id object = .error fault) : fault = .vacantRoot id := by
  rw [set] at failed
  split at failed
  · cases failed
  · cases failed
    rfl

omit [RawMemory σ] in
theorem RootTable.fault_of_remove {table : RootTable} {id : RootId} {fault : Fault}
    (failed : table.remove id = .error fault) : fault = .vacantRoot id := by
  rw [remove] at failed
  split at failed
  · cases failed
  · cases failed
    rfl

omit [RawMemory σ] in
theorem Heap.fault_of_check {α β : Type} {heap after : Heap σ} {read : Heap σ → Except Fault α}
    {change : α → HeapM σ β} {fault : Fault}
    (failed : (check read >>= change) heap = .error fault after)
    (total : ∀ value heap fault after, change value heap ≠ .error fault after) :
    read heap = .error fault := by
  rcases bind_eq_error.mp failed with failed | ⟨value, middle, _, failed⟩
  · exact (check_eq_error.mp failed).1
  · exact absurd failed (total value middle fault after)

omit [RawMemory σ] in
theorem Heap.fault_of_writeWord {heap after : Heap σ} {object : Ref} {offset word : Word}
    {fault : Fault} (consistent : heap.Consistent) (live : object ∈ heap.live)
    (failed : writeWord object offset word heap = .error fault after) :
    fault.isInternal = false := by
  obtain ⟨descriptor, length, readable⟩ := consistent.readable live
  have checked : checkWritable object offset heap = .error fault :=
    fault_of_check failed fun _ _ _ _ run => nomatch run
  rcases readable.checkWritable_eq_error consistent.types_valid checked with rfl | rfl <;> rfl

theorem Collector.fault_of_apply {before after : Collector σ} {operation : Operation}
    {fault : Fault} (plain : operation.isPlain = true) (consistent : before.heap.Consistent)
    (live : ∀ o ∈ operation.operands, o ∈ before.heap.live)
    (failed : apply operation before = .error fault after) : fault.isInternal = false := by
  cases operation with
  | allocate request => cases plain
  | collect => cases plain
  | addRoot object =>
    have failed' : onHeap (Heap.addRoot object) before = .error fault after := failed
    obtain ⟨heap, run, _⟩ := error_of_onHeap failed'
    cases run
  | setRoot id target =>
    have failed' : onHeap (Heap.setRoot id target) before = .error fault after := failed
    obtain ⟨heap, run, _⟩ := error_of_onHeap failed'
    have refused := Heap.fault_of_check run fun _ _ _ _ run => by cases run
    rw [RootTable.fault_of_set refused]
    rfl
  | removeRoot id =>
    have failed' : onHeap (Heap.removeRoot id) before = .error fault after := failed
    obtain ⟨heap, run, _⟩ := error_of_onHeap failed'
    have refused := Heap.fault_of_check run fun _ _ _ _ run => by cases run
    rw [RootTable.fault_of_remove refused]
    rfl
  | reset =>
    have failed' : onHeap Heap.reset before = .error fault after := failed
    obtain ⟨heap, run, _⟩ := error_of_onHeap failed'
    rw [Heap.reset, get_bind] at run
    cases collecting : before.heap.collecting with
    | true =>
      simp only [collecting] at run
      cases run
      rfl
    | false =>
      simp only [collecting, Bool.false_eq_true, if_false] at run
      have ended := (bind_of_ok (Heap.releaseAll_eq_ok before.heap consistent.sized)).symm.trans run
      cases ended
  | writeWord object offset word =>
    have failed' : onHeap (Heap.writeWord object offset word) before = .error fault after := failed
    obtain ⟨heap, run, _⟩ := error_of_onHeap failed'
    exact Heap.fault_of_writeWord consistent (live object List.mem_cons_self) run
  | writeRef object offset target =>
    have failed' : onHeap (Heap.writeWord object offset (Ref.slotWord target)) before =
        .error fault after := failed
    obtain ⟨heap, run, _⟩ := error_of_onHeap failed'
    exact Heap.fault_of_writeWord consistent (live object List.mem_cons_self) run
  | writePayload object offset bytes =>
    have failed' : onHeap (Heap.writePayload object offset bytes) before = .error fault after :=
      failed
    obtain ⟨heap, run, _⟩ := error_of_onHeap failed'
    have refused := Heap.fault_of_check run fun _ _ _ _ run => by cases run
    obtain ⟨descriptor, length, readable⟩ := consistent.readable (live object List.mem_cons_self)
    obtain ⟨start, room, writable, _⟩ := readable.exists_writablePart consistent.types_valid
    rw [writable] at refused
    cases refused

end Plain

/-- Where a run gives up, the embedder does, and the fault is none of the collector's unless the
    embedder's code raises it as its own. -/
theorem GivesUp.balks {point : Point σ} {fault : Fault} {after : Collector σ}
    (gives_up : GivesUp point fault after) (sound : Sound point) (lawful : point.Lawful) :
    point.Balks ∧ (fault.isInternal = true →
      ∃ place, point.stage = .code place (.run (.fail fault))) := by
  cases gives_up with
  | fail _ _ place history => exact ⟨trivial, fun _ => ⟨place, rfl⟩⟩
  | operate plain failed next place history =>
    refine ⟨⟨plain, _, _, failed⟩, fun internal => ?_⟩
    rw [Collector.fault_of_apply plain sound.consistent lawful failed] at internal
    cases internal
  | allocate failed next place history =>
    obtain ⟨object, host, granted, full⟩ := Heap.allocateNow_eq_error failed
    have room := sound.accounted.room sound.consistent (lawful object host granted)
    exact absurd full (Nat.not_le.mpr room)
  | reclaim idle failed next history =>
    obtain ⟨cycle, heap, reclaimed, _⟩ := Heap.exists_reclaimed sound.consistent (lawful idle)
    rw [failed] at reclaimed
    cases reclaimed
  | @call collector entry missing cycle waiting caller history =>
    have registered := (sound.due entry List.mem_cons_self).2
    rw [Array.getElem?_eq_none_iff] at missing
    exact absurd registered (Nat.not_lt.mpr missing)

theorem Sound.goes_on {point : Point σ} (sound : Sound point) (lawful : point.Lawful) :
    point.stage = .code .outside (.run .done) ∨ point.Balks ∨ ∃ next, Step point next := by
  by_cases going : ∃ next, Step point next
  · exact .inr (.inr going)
  · have stuck : Stuck point := fun next step => going ⟨next, step⟩
    rcases stuck.cases with finished | ⟨fault, after, gives_up⟩
    · exact .inl finished
    · exact .inr (.inl (gives_up.balks sound lawful).1)

theorem Sound.ends {point : Point σ} (sound : Sound point)
    (kept : ∀ later, Relation.ReflTransGen Step point later → later.Honest ∧ ¬ later.Balks) :
    ∃ last history,
      Relation.ReflTransGen Step point ⟨last, .code .outside (.run .done), history⟩ ∧
        point.result = .ok () last := by
  obtain ⟨last, run, stuck⟩ := halts point
  obtain ⟨honest, willing⟩ := kept last run
  have sound := sound.of_honest (Runs.of_kept (fun later reached => (kept later reached).1) run)
  have finished : last.stage = .code .outside (.run .done) := by
    rcases stuck.cases with finished | ⟨fault, after, gives_up⟩
    · exact finished
    · exact absurd (gives_up.balks sound (honest.lawful sound.consistent)).1 willing
  obtain ⟨collector, stage, history⟩ := last
  subst finished
  exact ⟨collector, history, run, (result_eq_of_reaches run).symm⟩

theorem Tidy.keeps {slots : SlotMap} {point : Point σ} (tidy : Tidy slots point) (steps : Nat)
    (whole : point.always (fun later => decide (later.Careful slots ∧ ¬ later.Balks)) steps = true) :
    ∀ later, Relation.ReflTransGen Step point later → later.Honest ∧ ¬ later.Balks := by
  have kept (later : Point σ) (reached : Relation.ReflTransGen Step point later) :
      later.Careful slots ∧ ¬ later.Balks :=
    of_decide_eq_true (Point.holds_of_always whole reached)
  intro later reached
  obtain ⟨sound, slotted, refs⟩ :=
    tidy.of_runs (Runs.of_kept (fun later reached => (kept later reached).1) reached)
  obtain ⟨careful, willing⟩ := kept later reached
  exact ⟨(careful.lawful sound.consistent slotted refs).honest, willing⟩

def Point.calling (point : Point σ) (operation : Operation) : Point σ :=
  ⟨point.collector, .code .outside (.run (.call operation fun _ => .done)), point.history⟩

omit [RawMemory σ] in
theorem Sound.calling {point : Point σ} (sound : Sound point)
    (idle : point.stage.isCollecting = false) (operation : Operation) :
    Sound (point.calling operation) where
  consistent := sound.consistent
  accounted := sound.accounted
  collecting := sound.collecting.trans idle
  pending := by
    intro code member
    rw [List.mem_singleton.mp member]
    trivial
  registered := sound.registered
  due := nofun

theorem Sound.exists_apply {point : Point σ} {operation : Operation}
    (sound : Sound (point.calling operation))
    (kept : ∀ later, Relation.ReflTransGen Step (point.calling operation) later →
      later.Honest ∧ ¬ later.Balks) :
    ∃ answer after, Collector.apply operation point.collector = .ok answer after := by
  obtain ⟨last, history, run, result⟩ := sound.ends kept
  have whole : (Collector.apply operation >>= fun _ => pure ()) point.collector =
      .ok () last := result
  obtain ⟨answer, after, performed, _⟩ := bind_eq_ok.mp whole
  exact ⟨answer, after, performed⟩

omit [RawMemory σ] in
theorem Heap.length_rooted_le (heap : Heap σ) :
    heap.rooted.length ≤ heap.reached.length + heap.external.size := by
  classical
  have more : heap.rooted.length ≤ (heap.live.filter fun o => heap.Retained o).length := by
    rw [rooted, ← List.countP_eq_length_filter, ← List.countP_eq_length_filter]
    refine List.countP_mono_left fun o _ reachable => ?_
    rw [decide_eq_true_eq] at reachable ⊢
    exact reachable.append _
  rw [live, List.filter_append, List.length_append] at more
  have immortal := List.length_filter_le (fun o => decide (heap.Retained o)) heap.external.toList
  have size : heap.external.toList.length = heap.external.size := Array.length_toList
  rw [reached]
  omega

/-- What a collection says of its mark phase: the number of objects marked in all is not less than
    the number marked from the roots, so that the difference can be taken. -/
def Cycle.Reports (cycle : Cycle) (heap : Heap σ) : Prop :=
  ∃ reachable, reachable ≤ cycle.marked ∧
    .logged (.markFinished reachable cycle.scheduled.length (cycle.marked - reachable)) ∈
      heap.journal.toList

theorem Heap.Reclaimed.reports {before after : Heap σ} {cycle : Cycle}
    (h : before.Reclaimed cycle after) : cycle.Reports after := by
  refine ⟨before.rooted.length, ?_, ?_⟩
  · rw [h.marked]
    exact before.length_rooted_le
  · rw [h.journal]
    simp

/-- No run that keeps the contract meets a fault of the collector. At every point of one it gives up
    only where the embedder does, and otherwise it goes on. A collection or an allocation from
    outside is carried out if no callback gives up, and a collection gets through its sweep. -/
theorem Runs.no_internal_fault {types : TypeTable} (valid : types.Valid) (growth : Growth)
    (host : σ) (program : Program σ) {point : Point σ}
    (run : Runs Point.Honest (.start { heap := { growth, types, host } } program) point)
    (honest : point.Honest) :
    (∀ fault after, GivesUp point fault after → point.Balks ∧ (fault.isInternal = true →
      ∃ place, point.stage = .code place (.run (.fail fault)))) ∧
    (point.stage = .code .outside (.run .done) ∨ point.Balks ∨ ∃ next, Step point next) ∧
    (∀ operation next, point.stage = .code .outside (.run (.call operation next)) →
      operation.isPlain = false →
      (∀ later, Relation.ReflTransGen Step (point.calling operation) later →
        later.Honest ∧ ¬ later.Balks) →
      ∃ answer after, Collector.apply operation point.collector = .ok answer after) ∧
    ∀ next, point.stage = .code .outside (.collect next) →
      point.collector.heap.collecting = false →
      ∃ cycle after, Heap.reclaim point.collector.heap = .ok cycle after ∧ cycle.Reports after := by
  have sound := (Sound.start valid growth host program).of_honest run
  have lawful := honest.lawful sound.consistent
  refine ⟨fun fault after gives_up => gives_up.balks sound lawful, sound.goes_on lawful, ?_, ?_⟩
  · intro operation next called _ kept
    exact Sound.exists_apply (sound.calling (called ▸ rfl) operation) kept
  · intro next asked idle
    obtain ⟨collector, stage, history⟩ := point
    subst asked
    obtain ⟨cycle, after, reclaimed, spec⟩ := Heap.exists_reclaimed sound.consistent (lawful idle)
    exact ⟨cycle, after, reclaimed, spec.reports⟩

def Stage.asksToCollect : Stage σ → Bool
  | .code .outside (.run (.call .collect _)) => true
  | _ => false

omit [RawMemory σ] in
theorem Stage.exists_of_asksToCollect {stage : Stage σ} (asks : stage.asksToCollect = true) :
    ∃ next, stage = .code .outside (.run (.call .collect next)) := by
  unfold asksToCollect at asks
  split at asks
  · exact ⟨_, rfl⟩
  · cases asks

theorem Runs.no_internal_fault_tour : ∃ (point : Point Shelves) (after : Collector Shelves),
    point.collector.heap.finalizers = #[⟨.placed 64, ⟨0⟩, false⟩] ∧
    Collector.apply .collect point.collector = .ok () after ∧
    (after.heap.stats.lastFreed = 1 ∧ after.heap.stats.finalizersRun = 1 ∧
      after.heap.finalizers = #[]) := by
  have tidy := Point.tidy_tour.of_runs (.to_after Point.careful_tour 16)
  obtain ⟨next, asked⟩ := Stage.exists_of_asksToCollect
    (by decide +kernel : (Point.after 16 .tour).stage.asksToCollect = true)
  have calling : Tidy TypeTable.mixedSlots (Point.calling (.after 16 .tour) .collect) :=
    ⟨tidy.sound.calling (asked ▸ rfl) _, tidy.slotted, tidy.refs⟩
  have honest : (Point.after 16 .tour).Honest := by
    rw [Point.Honest, asked]
    exact nofun
  have complete := (Runs.no_internal_fault TypeTable.valid_mixed .short ({} : Shelves) .tour
    (Runs.lawful_tour 16).honest honest).2.2.1
  obtain ⟨answer, after, ran⟩ :=
    complete .collect next asked rfl (calling.keeps 20 (by decide +kernel))
  have seen : let after := Collector.final (Collector.apply .collect (Point.after 16 .tour).collector)
      after.heap.stats.lastFreed = 1 ∧ after.heap.stats.finalizersRun = 1 ∧
        after.heap.finalizers = #[] := by decide +kernel
  rw [ran] at seen
  exact ⟨_, after, by decide +kernel, ran, seen⟩

end Reclaim
