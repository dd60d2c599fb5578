import Reclaim.Proofs.Run.Faults
import Reclaim.Proofs.Run.Finalization
import Reclaim.Proofs.Run.Objects
import Reclaim.Proofs.Run.Outcomes

namespace Reclaim

variable {σ : Type}

structure Collector.Extends (before after : Collector σ) : Prop where
  live : ∀ o ∈ before.heap.live, o ∈ after.heap.live
  finalizers : ∃ added,
    after.heap.finalizers.toList = before.heap.finalizers.toList ++ added
  queues : ∃ added, after.queues.toList = before.queues.toList ++ added
  collections : after.heap.stats.collections = before.heap.stats.collections

namespace Collector.Extends

variable {before after : Collector σ}

theorem refl (collector : Collector σ) : collector.Extends collector :=
  ⟨fun _ member => member, ⟨[], (List.append_nil _).symm⟩, ⟨[], (List.append_nil _).symm⟩, rfl⟩

theorem trans {first second third : Collector σ} (h : first.Extends second)
    (h' : second.Extends third) : first.Extends third := by
  obtain ⟨entries, finalizers⟩ := h.finalizers
  obtain ⟨more, finalizers'⟩ := h'.finalizers
  obtain ⟨callbacks, queues⟩ := h.queues
  obtain ⟨others, queues'⟩ := h'.queues
  exact {
    live := fun o member => h'.live o (h.live o member)
    finalizers := ⟨entries ++ more, by rw [finalizers', finalizers, List.append_assoc]⟩
    queues := ⟨callbacks ++ others, by rw [queues', queues, List.append_assoc]⟩
    collections := h'.collections.trans h.collections }

theorem of_heap {collector : Collector σ} {heap : Heap σ}
    (objects : heap.objects = collector.heap.objects)
    (external : heap.external = collector.heap.external)
    (finalizers : heap.finalizers = collector.heap.finalizers)
    (collections : heap.stats.collections = collector.heap.stats.collections) :
    collector.Extends { collector with heap } where
  live := by
    rw [Heap.live, Heap.live, objects, external]
    exact fun _ member => member
  finalizers := ⟨[], by rw [finalizers, List.append_nil]⟩
  queues := ⟨[], (List.append_nil _).symm⟩
  collections := collections

end Collector.Extends

variable [RawMemory σ]

theorem Collector.apply_of_busy {before after : Collector σ} {operation : Operation}
    {answer : operation.Answer} (plain : operation.isPlain = true)
    (busy : before.heap.collecting = true)
    (performed : apply operation before = .ok answer after) :
    operation ≠ .reset ∧
      ∃ roots memory, after = { before with heap := { before.heap with roots, memory } } := by
  rcases apply_eq_ok plain performed with ⟨_, reset⟩ | settled
  · obtain ⟨run, _⟩ := onHeap_eq_ok reset
    rw [Heap.reset_of_busy busy] at run
    cases run
  · exact settled

theorem CodeStep.extends {before after : Collector σ} {code rest : Code σ}
    {new : List (Happening σ)} (step : CodeStep before code new after rest)
    (busy : before.heap.collecting = true) : before.Extends after := by
  cases step with
  | operate plain performed next =>
    obtain ⟨_, roots, memory, rfl⟩ := Collector.apply_of_busy plain busy performed
    exact .of_heap rfl rfl rfl rfl
  | allocate answered next =>
    rcases Heap.allocateNow_eq_ok answered with ⟨error, rfl, _⟩ | ⟨object, rfl, granted⟩
    · obtain ⟨reason, host, _, _, rfl⟩ := Heap.allocateNow_eq_refused answered
      exact .of_heap rfl rfl rfl rfl
    · exact {
        live := fun o member => (granted.mem_live o).mpr (.inl member)
        finalizers := ⟨_, granted.finalizers⟩
        queues := ⟨[], (List.append_nil _).symm⟩
        collections := congrArg Stats.collections granted.stats }
  | addQueue callback next =>
    exact ⟨fun _ member => member, ⟨[], (List.append_nil _).symm⟩, ⟨_, Array.toList_push⟩, rfl⟩
  | inspect | collect | refuse | accept => exact .refl _
  | exceed | addScanner | host | poke => exact .of_heap rfl rfl rfl rfl

omit [RawMemory σ] in
def Stage.IsEnding (stage : Stage σ) : Prop :=
  stage.codes.getLast? = some (.run .done)

omit [RawMemory σ] in
theorem Stage.IsEnding.not_outside {code : Code σ} (ending : IsEnding (.code .outside code))
    (more : code ≠ .run .done) : False :=
  more (Option.some.inj ending)

theorem Step.extends {point next : Point σ} (step : Step point next)
    (ending : point.stage.IsEnding)
    (busy : point.collector.heap.collecting = point.stage.isCollecting) :
    point.collector.Extends next.collector ∧ next.stage.IsEnding := by
  cases step with
  | @code before after code rest new step place history =>
    cases place with
    | outside =>
      cases Option.some.inj ending
      cases step
    | callback entry collection => exact ⟨step.extends busy, ending⟩
  | @nested collector place busy next history =>
    cases place with
    | outside => exact (ending.not_outside nofun).elim
    | callback entry collection => exact ⟨.of_heap rfl rfl rfl rfl, ending⟩
  | reclaim idle reclaimed next history => exact (ending.not_outside nofun).elim
  | call found cycle waiting caller history => exact ⟨.of_heap rfl rfl rfl rfl, ending⟩
  | «return» collector entry collection history => exact ⟨.of_heap rfl rfl rfl rfl, ending⟩
  | finish finished caller history =>
    cases finished
    exact ⟨.of_heap rfl rfl rfl rfl, ending⟩

theorem CodeStep.keeps_of_busy {before after : Collector σ} {code rest : Code σ} {new : List (Happening σ)}
    (step : CodeStep before code new after rest) (busy : before.heap.collecting = true) :
    after.heap.collecting = true ∧ after.heap.types = before.heap.types := by
  cases step with
  | operate plain performed next =>
    obtain ⟨_, roots, memory, rfl⟩ := Collector.apply_of_busy plain busy performed
    exact ⟨busy, rfl⟩
  | allocate answered next =>
    rcases Heap.allocateNow_eq_ok answered with ⟨_, _, aside, same⟩ | ⟨_, _, granted⟩
    · exact ⟨same.trans busy, aside.types⟩
    · exact ⟨granted.collecting.trans busy, granted.types⟩
  | inspect | collect | refuse | accept | exceed | addQueue | addScanner | host | poke =>
    exact ⟨busy, rfl⟩

theorem Step.keeps_of_ending {point next : Point σ} (step : Step point next)
    (ending : point.stage.IsEnding)
    (same : point.collector.heap.collecting = point.stage.isCollecting) :
    next.collector.heap.collecting = next.stage.isCollecting ∧
      next.collector.heap.types = point.collector.heap.types := by
  cases step with
  | code step place history =>
    cases place with
    | outside =>
      cases Option.some.inj ending
      cases step
    | callback entry collection => exact step.keeps_of_busy same
  | @nested collector place busy next history =>
    cases place with
    | outside => exact (ending.not_outside nofun).elim
    | callback entry collection => exact ⟨same, rfl⟩
  | reclaim idle reclaimed next history => exact (ending.not_outside nofun).elim
  | call found cycle waiting caller history => exact ⟨same, rfl⟩
  | «return» collector entry collection history => exact ⟨same, rfl⟩
  | finish finished caller history =>
    cases finished
    exact ⟨rfl, rfl⟩

/-- Whatever its callbacks do, a collection that has got through its sweep only adds to what there
    is, and counts no other one. -/
theorem Point.extends_of_steps {point last : Point σ} (ending : point.stage.IsEnding)
    (same : point.collector.heap.collecting = point.stage.isCollecting)
    (run : Relation.ReflTransGen Step point last) :
    point.collector.Extends last.collector ∧
      last.collector.heap.types = point.collector.heap.types ∧ last.stage.IsEnding ∧
      last.collector.heap.collecting = last.stage.isCollecting := by
  induction run with
  | refl => exact ⟨.refl _, rfl, ending, same⟩
  | tail _ step ih =>
    obtain ⟨grown, types, ending, same⟩ := ih
    obtain ⟨more, ending'⟩ := step.extends ending same
    obtain ⟨same', types'⟩ := step.keeps_of_ending ending same
    exact ⟨grown.trans more, types'.trans types, ending', same'⟩

theorem Sound.extends_of_runs {point last : Point σ} (sound : Sound point)
    (ending : point.stage.IsEnding) (run : Runs Point.Lawful point last) :
    point.collector.Extends last.collector ∧ last.stage.IsEnding := by
  have steps := Relation.ReflTransGen.mono (fun _ _ step => step.2) _ _ run
  obtain ⟨grown, _, ending, _⟩ := Point.extends_of_steps ending sound.collecting steps
  exact ⟨grown, ending⟩

section Invocations

omit [RawMemory σ]

def Happening.isInvocation : Happening σ → Bool
  | .called _ _ | .returned _ => true
  | _ => false

def Collector.invocation (collector : Collector σ) (entry : FinalizerEntry) :
    List (Happening σ) :=
  match collector.queues[entry.queue.index]? with
  | some callback => [.called entry callback, .returned entry]
  | none => []

def Stage.upcoming (collector : Collector σ) : Stage σ → List (Happening σ)
  | .code .outside _ => []
  | .code (.callback entry collection) _ =>
    .returned entry :: collection.waiting.flatMap collector.invocation
  | .between collection => collection.waiting.flatMap collector.invocation

end Invocations

/-- What has happened since the sweep of the collection that `first` asked for. -/
structure Underway (first : Collector σ) (cycle : Cycle) (point : Point σ) : Prop where
  invocations : point.history.filter Happening.isInvocation ++ point.stage.upcoming first =
    cycle.scheduled.flatMap first.invocation
  queues : ∃ added, point.collector.queues.toList = first.queues.toList ++ added
  due : ∀ entry ∈ point.stage.entries, entry.queue.index < first.queues.size
  allocated : ∀ object request given, .allocated object request given ∈ point.history →
    object ∈ point.collector.heap.live ∧
      ∀ entry ∈ request.entries object, entry ∈ point.collector.heap.finalizers.toList

theorem CodeStep.allocated {before after : Collector σ} {code rest : Code σ}
    {new : List (Happening σ)} (step : CodeStep before code new after rest)
    (busy : before.heap.collecting = true) :
    new.filter Happening.isInvocation = [] ∧
    ∀ object request given, .allocated object request given ∈ new →
      object ∈ after.heap.live ∧
        ∀ entry ∈ request.entries object, entry ∈ after.heap.finalizers.toList := by
  cases step with
  | @operate _ operation answer plain performed next =>
    have none_new : Happening.ofOperation before.heap operation = [] := by
      obtain ⟨other, _⟩ := Collector.apply_of_busy plain busy performed
      cases operation with
      | reset => exact absurd rfl other
      | allocate | addRoot | setRoot | removeRoot | collect | writeWord | writeRef
      | writePayload => rfl
    rw [none_new]
    exact ⟨rfl, nofun⟩
  | allocate answered next =>
    rcases Heap.allocateNow_eq_ok answered with ⟨error, rfl, _⟩ | ⟨object, rfl, granted⟩
    · exact ⟨rfl, nofun⟩
    · refine ⟨rfl, fun other asked given member => ?_⟩
      cases List.mem_singleton.mp member
      refine ⟨(granted.mem_live object).mpr (.inr rfl), fun entry listed => ?_⟩
      rw [granted.finalizers]
      exact List.mem_append_right _ listed
  | inspect | collect | refuse | accept | exceed | addQueue | addScanner | host | poke =>
    exact ⟨rfl, nofun⟩

omit [RawMemory σ] in
theorem Underway.advance {first : Collector σ} {cycle : Cycle} {point : Point σ}
    (underway : Underway first cycle point) {collector : Collector σ} {stage : Stage σ}
    {new history : List (Happening σ)} (past : history = point.history ++ new)
    (grown : point.collector.Extends collector)
    (invocations : new.filter Happening.isInvocation ++ stage.upcoming first =
      point.stage.upcoming first)
    (due : ∀ entry ∈ stage.entries, entry ∈ point.stage.entries)
    (allocated : ∀ object request given, .allocated object request given ∈ new →
      object ∈ collector.heap.live ∧
        ∀ entry ∈ request.entries object, entry ∈ collector.heap.finalizers.toList) :
    Underway first cycle ⟨collector, stage, history⟩ where
  invocations := by
    rw [past, List.filter_append, List.append_assoc, invocations, underway.invocations]
  queues := by
    obtain ⟨callbacks, queues⟩ := underway.queues
    obtain ⟨added, more⟩ := grown.queues
    exact ⟨callbacks ++ added, by rw [more, queues, List.append_assoc]⟩
  due := fun entry member => underway.due entry (due entry member)
  allocated := by
    intro object request given member
    rw [past] at member
    rcases List.mem_append.mp member with old | new
    · obtain ⟨live, pending⟩ := underway.allocated object request given old
      obtain ⟨added, finalizers⟩ := grown.finalizers
      refine ⟨grown.live object live, fun entry listed => ?_⟩
      rw [finalizers]
      exact List.mem_append_left _ (pending entry listed)
    · exact allocated object request given new

omit [RawMemory σ] in
theorem Underway.invocation_eq {first : Collector σ} {cycle : Cycle} {point : Point σ}
    (underway : Underway first cycle point) {entry : FinalizerEntry}
    (member : entry ∈ point.stage.entries) {callback : Ref → Program σ}
    (found : point.collector.queues[entry.queue.index]? = some callback) :
    first.invocation entry = [.called entry callback, .returned entry] := by
  obtain ⟨added, queues⟩ := underway.queues
  have early := underway.due entry member
  rw [← Array.length_toList] at early
  rw [← Array.getElem?_toList, queues, List.getElem?_append_left early,
    Array.getElem?_toList] at found
  rw [Collector.invocation, found]

theorem Underway.step {first : Collector σ} {cycle : Cycle} {point next : Point σ}
    (underway : Underway first cycle point) (ending : point.stage.IsEnding)
    (same : point.collector.heap.collecting = point.stage.isCollecting)
    (step : Step point next) : Underway first cycle next := by
  obtain ⟨grown, _⟩ := step.extends ending same
  cases step with
  | @code before after code rest new step place history =>
    cases place with
    | outside =>
      cases Option.some.inj ending
      cases step
    | callback entry collection =>
      obtain ⟨quiet, allocated⟩ := step.allocated same
      refine underway.advance rfl grown ?_ (fun _ member => member) allocated
      rw [quiet]
      rfl
  | @nested collector place busy next history =>
    cases place with
    | outside => exact (ending.not_outside nofun).elim
    | callback entry collection =>
      exact underway.advance (List.append_nil _).symm grown rfl (fun _ member => member) nofun
  | reclaim idle reclaimed next history => exact (ending.not_outside nofun).elim
  | @call collector entry callback found cycle waiting caller history =>
    have invoked := underway.invocation_eq List.mem_cons_self found
    refine underway.advance rfl grown ?_ (fun _ member => member) nofun
    simp only [Stage.upcoming, List.flatMap_cons, invoked]
    rfl
  | «return» collector entry collection history =>
    exact underway.advance rfl grown rfl (fun _ member => List.mem_cons_of_mem _ member) nofun
  | finish finished caller history =>
    exact underway.advance (List.append_nil _).symm grown rfl nofun nofun

theorem Underway.of_steps {first : Collector σ} {cycle : Cycle} {point last : Point σ}
    (underway : Underway first cycle point) (ending : point.stage.IsEnding)
    (same : point.collector.heap.collecting = point.stage.isCollecting)
    (run : Relation.ReflTransGen Step point last) : Underway first cycle last := by
  induction run with
  | refl => exact underway
  | tail reached step ih =>
    obtain ⟨_, _, ending, same⟩ := Point.extends_of_steps ending same reached
    exact ih.step ending same step

/-- What the operations do that a collection has to be guarded against while it runs. -/
structure Collector.Guarded (collector : Collector σ) : Prop where
  collect : collect collector =
    .ok () { collector with heap := collector.heap.record (.logged .alreadyCollecting) }
  allocate : ∀ request cost,
    request.accept collector.heap.types collector.queues.size = .ok cost →
    ∀ answer after, onHeap (Heap.allocateNow request cost) collector = .ok answer after →
      ∃ journal, apply (.allocate request) collector =
        .ok answer { after with heap := { after.heap with journal } }
  reset : apply .reset collector = .error .resetDuringCollection collector
  within : ∀ operation, perform collectWithin operation collector = apply operation collector

theorem Collector.guarded_of_busy {collector : Collector σ}
    (busy : collector.heap.collecting = true) : collector.Guarded where
  collect := collect_swallowed busy
  allocate := by
    intro request cost accepted answer after run
    by_cases large : ¬ request.isExternal ∧ collector.heap.exceedsThreshold cost
    · have swallowed := collect_announced_of_busy busy cost
      obtain ⟨journal, again⟩ := onHeap_allocateNow_journal run
        ((collector.heap.announced cost).record (.logged .alreadyCollecting)).journal
      refine ⟨journal, ?_⟩
      exact ((allocate_of_exceed _ accepted large).trans (bind_of_ok swallowed)).trans again
    · refine ⟨after.heap.journal, ?_⟩
      exact (allocate_of_accept _ accepted large).trans run
  reset := onHeap_of_error (Heap.reset_of_busy busy)
  within := perform_within busy

def Point.opening (collector : Collector σ) : Point σ :=
  ⟨collector, .code .outside (.collect (.run .done)), []⟩

def Point.opened (collector : Collector σ) (cycle : Cycle) (swept : Heap σ) : Point σ :=
  ⟨{ collector with heap := swept }, .between ⟨cycle, cycle.scheduled, .run .done⟩,
    Happening.ofCycle collector.heap cycle swept⟩

theorem Step.of_opening {collector : Collector σ} {next : Point σ}
    (idle : collector.heap.collecting = false) (step : Step (.opening collector) next) :
    ∃ cycle swept, Heap.reclaim collector.heap = .ok cycle swept ∧
      next = .opened collector cycle swept := by
  cases step with
  | code step => cases step
  | nested busy =>
    rcases busy with callback | collecting
    · cases callback
    · exact absurd (idle.symm.trans collecting) Bool.false_ne_true
  | reclaim idle reclaimed => exact ⟨_, _, reclaimed, rfl⟩

theorem Collector.exists_course {before after : Collector σ}
    (idle : before.heap.collecting = false) (collected : collect before = .ok () after) :
    ∃ cycle swept history, Heap.reclaim before.heap = .ok cycle swept ∧
      Step (.opening before) (.opened before cycle swept) ∧
      Relation.ReflTransGen Step (.opened before cycle swept)
        ⟨after, .code .outside (.run .done), history⟩ := by
  have ended : (Point.opening before).result = .ok () after := bind_of_ok collected
  obtain ⟨history, run⟩ := Point.reaches_end ended
  rcases Relation.ReflTransGen.cases_head run with same | ⟨next, step, rest⟩
  · cases same
  · obtain ⟨cycle, swept, reclaimed, rfl⟩ := step.of_opening idle
    exact ⟨cycle, swept, history, reclaimed, step, rest⟩

theorem Sound.lawful_of_kept {point last : Point σ} (sound : Sound point)
    (kept : ∀ later, Relation.ReflTransGen Step point later → later.Honest ∧ ¬ later.Balks)
    (run : Relation.ReflTransGen Step point last) : Runs Point.Lawful point last := by
  refine Runs.of_kept (fun later reached => ?_) run
  have honest := Runs.of_kept (fun later reached => (kept later reached).1) reached
  exact (kept later reached).1.lawful (sound.of_honest honest).consistent

omit [RawMemory σ] in
theorem Underway.opened {collector : Collector σ} {cycle : Cycle} (swept : Heap σ)
    (known : ∀ entry ∈ cycle.scheduled, entry.queue.index < collector.queues.size) :
    Underway collector cycle (.opened collector cycle swept) where
  invocations := by
    have none_called : (Happening.ofCycle collector.heap cycle swept).filter
        Happening.isInvocation = [] := by
      refine List.filter_eq_nil_iff.mpr fun happening member => ?_
      rcases Happening.of_mem_ofCycle member with ⟨entry, rfl⟩ | ⟨object, rfl⟩ <;>
        exact Bool.false_ne_true
    rw [Point.opened, none_called]
    rfl
  queues := ⟨[], (List.append_nil _).symm⟩
  due := known
  allocated := by
    intro object request given member
    rcases Happening.of_mem_ofCycle member with ⟨entry, same⟩ | ⟨other, same⟩ <;> cases same

/-- One collection from its beginning to its end: `swept` is the heap before the first callback, and
    `history` what has happened to objects by the end. -/
structure Collector.OneCycle (collector : Collector σ) (cycle : Cycle) (swept : Heap σ)
    (last : Collector σ) (history : List (Happening σ)) : Prop where
  reclaimed : Heap.reclaim collector.heap = .ok cycle swept
  collected : collect collector = .ok () last
  run : Relation.ReflTransGen Step (.opening collector)
    ⟨last, .code .outside (.run .done), history⟩
  idle : last.heap.collecting = false
  once : last.heap.stats.collections = collector.heap.stats.collections + 1
  calls : history.filter Happening.isInvocation = cycle.scheduled.flatMap collector.invocation
  scheduled : ∀ entry ∈ cycle.scheduled, entry ∈ collector.heap.finalizers.toList ∧
    entry.queue.index < collector.queues.size
  pending : ∃ added, last.heap.finalizers.toList = swept.finalizers.toList ++ added
  allocated : ∀ object request given, .allocated object request given ∈ history →
    object ∈ last.heap.live ∧
      ∀ entry ∈ request.entries object, entry ∈ last.heap.finalizers.toList
  during : ∀ point, Relation.ReflTransGen Step (.opening collector) point →
    point.stage.isCollecting = true →
      point.collector.Guarded ∧ ∀ o ∈ point.collector.heap.live, o ∈ last.heap.live

/-- One collection, whatever its callbacks do as long as they keep the contract and do not give up.
    It counts once and ends with the heap idle. It calls the finalizers that its own mark phase took
    out of the registry, in the order in which it did. While it runs, nobody starts another
    collection or resets the heap, allocations go on as if no collection were asked for, and
    everything that is live stays so until the end. -/
theorem Collector.collect_once {collector : Collector σ} (sound : Sound (.opening collector))
    (kept : ∀ later, Relation.ReflTransGen Step (.opening collector) later →
      later.Honest ∧ ¬ later.Balks) :
    ∃ cycle swept last history, collector.OneCycle cycle swept last history := by
  have idle : collector.heap.collecting = false := sound.collecting
  have lawful : Point.Lawful (.opening collector) := (kept _ .refl).1.lawful sound.consistent
  obtain ⟨cycle, swept, reclaimed, spec⟩ := Heap.exists_reclaimed sound.consistent (lawful idle)
  -- the opening is left by one step, the sweep; everything after that is the work of callbacks
  have first : Step (.opening collector) (.opened collector cycle swept) :=
    .reclaim idle reclaimed (.run .done) []
  have sound' := sound.step lawful first
  have kept' := fun later reached => kept later (.head first reached)
  obtain ⟨last, history, run, result⟩ := sound'.ends kept'
  have course := sound'.lawful_of_kept kept' run
  obtain ⟨grown, _⟩ := sound'.extends_of_runs rfl course
  have opened := Underway.opened swept fun entry member =>
    sound.registered entry (spec.divides.scheduled_sublist.subset member)
  have underway := opened.of_steps rfl sound'.collecting run
  refine ⟨cycle, swept, last, history, {
    reclaimed := reclaimed
    collected := ?_
    run := .head first run
    idle := (sound'.of_runs course).collecting
    once := grown.collections.trans (congrArg Stats.collections spec.stats)
    calls := (List.append_nil _).symm.trans underway.invocations
    scheduled := fun entry member =>
      ⟨spec.divides.scheduled_sublist.subset member, opened.due entry member⟩
    pending := grown.finalizers
    allocated := underway.allocated
    during := ?_ }⟩
  · have whole : (collect >>= fun _ => pure ()) collector = .ok () last :=
      first.result_eq.symm.trans result
    obtain ⟨_, _, collected, finished⟩ := bind_eq_ok.mp whole
    cases finished
    exact collected
  · intro during reached collecting
    rcases Relation.ReflTransGen.cases_head reached with rfl | ⟨next, step, reached⟩
    · cases collecting
    · -- the sweep comes out in one way only, so a run that has left the opening passes through it
      obtain ⟨_, _, again, rfl⟩ := step.of_opening idle
      cases reclaimed.symm.trans again
      have before := sound'.lawful_of_kept kept' reached
      have sound'' := sound'.of_runs before
      refine ⟨guarded_of_busy (sound''.collecting.trans collecting), ?_⟩
      -- a run ends in one way only, so the run from here ends where the whole one does
      have kept'' := fun later more => kept' later (reached.trans more)
      obtain ⟨other, past, rest, result'⟩ := sound''.ends kept''
      have same : other = last := by
        rw [result_eq_of_reaches reached, result] at result'
        cases result'
        rfl
      obtain ⟨_, ending⟩ := sound'.extends_of_runs rfl before
      obtain ⟨more, _⟩ := sound''.extends_of_runs ending (sound''.lawful_of_kept kept'' rest)
      exact same ▸ more.live

omit [RawMemory σ] in
theorem Sound.opening {point : Point σ} (sound : Sound point)
    (idle : point.stage.isCollecting = false) {queues : Array (Ref → Program σ)}
    (size : queues.size = point.collector.queues.size) :
    Sound (.opening ⟨point.collector.heap, queues⟩) where
  consistent := sound.consistent
  accounted := sound.accounted
  collecting := sound.collecting.trans idle
  pending := by
    intro code member
    cases List.mem_singleton.mp member
    trivial
  registered := fun entry member => Nat.lt_of_lt_of_eq (sound.registered entry member) size.symm
  due := nofun

def Program.insistent (_ : Ref) : Program SystemMemory :=
  .call .collect fun _ => .done

theorem Program.insists {heap : Heap SystemMemory} (consistent : heap.Consistent)
    (traceable : heap.Traceable) (idle : heap.collecting = false) {later : Point SystemMemory}
    (run : Relation.ReflTransGen Step (.opening ⟨heap, #[insistent]⟩) later) :
    later = .opening ⟨heap, #[insistent]⟩ ∨
    later.stage = .code .outside (.run .done) ∨
    (later.collector.heap.collecting = true ∧ later.collector.queues = #[insistent] ∧
      ∃ collection : Collection SystemMemory, collection.caller = .run .done ∧
        (later.stage = .between collection ∨
          ∃ entry code, later.stage = .code (.callback entry collection) code ∧
            (code = .run (.call .collect fun _ => .done) ∨ code = .collect (.run .done) ∨
              code = .run .done))) := by
  induction run with
  | refl => exact .inl rfl
  | @tail point next _ step ih =>
    obtain ⟨collector, stage, history⟩ := point
    rcases ih with
      same | rfl | ⟨busy, queues, ⟨cycle, waiting, _⟩, rfl, rfl | ⟨entry, code, rfl, left⟩⟩
    · cases same
      obtain ⟨cycle, swept, reclaimed, rfl⟩ := step.of_opening idle
      have spec := Heap.reclaimed_of_ok consistent traceable reclaimed
      exact .inr (.inr ⟨spec.collecting, rfl, _, rfl, .inl rfl⟩)
    · cases step with
      | code step => cases step
    · cases step with
      | @call _ entry callback found =>
        have only : callback = insistent := by
          rw [queues] at found
          exact Array.mem_singleton.mp (Array.mem_of_getElem? found)
        subst only
        exact .inr (.inr ⟨busy, queues, _, rfl, .inr ⟨entry, _, rfl, .inl rfl⟩⟩)
      | finish finished => exact .inr (.inl rfl)
    · rcases left with rfl | rfl | rfl
      · cases step with
        | code step =>
          cases step with
          | operate plain => cases plain
          | collect =>
            exact .inr (.inr ⟨busy, queues, _, rfl, .inr ⟨entry, _, rfl, .inr (.inl rfl)⟩⟩)
      · cases step with
        | code step => cases step
        | nested => exact .inr (.inr ⟨busy, queues, _, rfl, .inr ⟨entry, _, rfl, .inr (.inr rfl)⟩⟩)
      · cases step with
        | code step => cases step
        | «return» => exact .inr (.inr ⟨busy, queues, _, rfl, .inl rfl⟩)

theorem Collector.collect_once_insistent :
    ∃ heap cycle swept last history, cycle.scheduled = [⟨.lowest, ⟨0⟩, false⟩] ∧
      Collector.OneCycle ⟨heap, #[Program.insistent]⟩ cycle swept last history := by
  obtain ⟨baseline, stats, journal, made⟩ := Program.makes_parting
  have sound := (Sound.start TypeTable.valid_nodes {} ({} : SystemMemory) .parting).of_runs made
  have traceable := Heap.traceable_parting baseline stats journal
  have opening : Sound (.opening ⟨.parting baseline stats journal, #[Program.insistent]⟩) :=
    sound.opening rfl rfl
  obtain ⟨cycle, swept, last, history, one⟩ := collect_once opening fun later reached => by
    obtain ⟨collector, stage, past⟩ := later
    rcases Program.insists sound.consistent traceable rfl reached with
      same | rfl | ⟨busy, _, ⟨cycle, waiting, _⟩, rfl, rfl | ⟨entry, code, rfl, rfl | rfl | rfl⟩⟩
    · cases same
      exact ⟨fun _ => traceable.truthful, id⟩
    · exact ⟨trivial, id⟩
    · exact ⟨trivial, id⟩
    · exact ⟨nofun, fun balks => nomatch balks.1⟩
    · exact ⟨fun idle => (nomatch busy.symm.trans idle), id⟩
    · exact ⟨trivial, id⟩
  have spec := Heap.reclaimed_of_ok sound.consistent traceable one.reclaimed
  exact ⟨_, cycle, swept, last, history, spec.parting.1, one⟩

end Reclaim
