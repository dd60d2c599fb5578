import Reclaim.Proofs.Console.Contents
import Reclaim.Proofs.Console.Upkeep

namespace Reclaim.Console

section Events

variable {μ : Type}

def Reports.lineFor (reports : Reports μ) (entry : FinalizerEntry) : String :=
  "finalized " ++ reports.nameOf entry.object ++
    (if entry.queue = Session.queueOf true then " (light)" else "")

structure Told (before after : Heap (Reports μ)) (events : List Event) : Prop where
  journal : after.journal.toList = before.journal.toList ++ events
  messages : after.host.messages.toList =
    before.host.messages.toList ++ (finalizerCalls events).map before.host.lineFor
  count : after.stats.finalizersRun = before.stats.finalizersRun + (finalizerCalls events).length

theorem Told.still {before after : Heap (Reports μ)} (journal : after.journal = before.journal)
    (messages : after.host.messages = before.host.messages) (stats : after.stats = before.stats) :
    Told before after [] := by
  refine ⟨?_, ?_, ?_⟩
  · rw [journal, List.append_nil]
  · rw [messages]
    exact (List.append_nil _).symm
  · rw [stats]
    rfl

theorem Told.refl {heap : Heap (Reports μ)} : Told heap heap [] :=
  .still rfl rfl rfl

theorem Told.trans {before middle after : Heap (Reports μ)} {events more : List Event}
    (h : Told before middle events) (later : Told middle after more)
    (lines : middle.host.lineFor = before.host.lineFor) : Told before after (events ++ more) where
  journal := by rw [later.journal, h.journal, List.append_assoc]
  messages := by
    rw [later.messages, h.messages, lines, finalizerCalls_append, List.map_append,
      List.append_assoc]
  count := by rw [later.count, h.count, finalizerCalls_append, List.length_append, Nat.add_assoc]

theorem Told.event {before after : Heap (Reports μ)} {event : Event}
    (journal : after.journal = before.journal.push event) (uncalled : event.call? = none)
    (messages : after.host.messages = before.host.messages)
    (stats : after.stats.finalizersRun = before.stats.finalizersRun) :
    Told before after [event] := by
  have none_called : finalizerCalls [event] = [] := List.filterMap_cons_none uncalled
  refine ⟨?_, ?_, ?_⟩
  · rw [journal, Array.toList_push]
  · rw [messages, none_called, List.map_nil, List.append_nil]
  · rw [stats, none_called]
    rfl

theorem Told.of_wrote {before after : Heap (Reports μ)} {object : Ref} {offset : Nat}
    {bytes : List UInt8} (wrote : before.Wrote after object offset bytes) :
    Told before after [] := by
  rw [wrote.after_eq]
  exact .still rfl rfl rfl

structure Reported (before after : Heap (Reports μ)) (events : List Event) : Prop where
  told : Told before after events
  registered : ∀ entry ∈ finalizerCalls events, entry ∈ before.finalizers.toList
  early : ∃ calling others, events = calling ++ others ∧
    (∀ event ∈ calling, ∀ o, event.naming? o = none) ∧ finalizerCalls others = []

theorem Told.reported {before after : Heap (Reports μ)} {events : List Event}
    (told : Told before after events) (uncalled : finalizerCalls events = []) :
    Reported before after events where
  told := told
  registered := by
    rw [uncalled]
    exact nofun
  early := ⟨[], events, rfl, nofun, uncalled⟩

theorem Reported.refl {heap : Heap (Reports μ)} : Reported heap heap [] :=
  Told.refl.reported rfl

theorem Reported.silent {before middle after : Heap (Reports μ)} {events more : List Event}
    (h : Reported before middle events) (later : Told middle after more)
    (uncalled : finalizerCalls more = []) : Reported before after (events ++ more) where
  told :=
    { journal := by rw [later.journal, h.told.journal, List.append_assoc]
      messages := by
        rw [later.messages, h.told.messages, finalizerCalls_append, uncalled, List.append_nil,
          List.map_nil, List.append_nil]
      count := by
        rw [later.count, h.told.count, finalizerCalls_append, uncalled, List.append_nil]
        rfl }
  registered := by
    rw [finalizerCalls_append, uncalled, List.append_nil]
    exact h.registered
  early := by
    obtain ⟨calling, others, rfl, unnamed, uncalled'⟩ := h.early
    refine ⟨calling, others ++ more, List.append_assoc .., unnamed, ?_⟩
    rw [finalizerCalls_append, uncalled, uncalled']
    rfl

end Events

variable {μ : Type} [RawMemory μ] {first : μ}

theorem Told.of_refused {before : Heap (Reports μ)} {cost : Word} {error : ChunkError}
    {host : Reports μ} (answered : RawMemory.request cost before.host = (.error error, host)) :
    Told before ({ before with host }.record (.requested cost (.error error)))
      [.requested cost (.error error)] :=
  .event rfl rfl (by rw [Reports.eq_of_request answered]; rfl) rfl

theorem Told.of_granted {before after : Heap (Reports μ)} {request : Request} {cost : Word}
    {object : Ref} (granted : before.Granted after request cost object) :
    Told before after [.requested cost (.ok object)] :=
  .event (Array.toList_inj.mp (granted.journal.trans Array.toList_push.symm)) rfl
    (by rw [Reports.eq_of_request granted.answer]) (by rw [granted.stats])

theorem Upright.closed {heap : Heap (Reports μ)} (upright : Upright first heap) {o target : Ref}
    (member : o ∈ heap.objects.toList) (held : some target ∈ Kind.contents heap o) :
    target ∈ heap.objects.toList := by
  obtain ⟨offset, slot, found⟩ := List.mem_map.mp held
  exact upright.target_mem member slot found

/-- A heap after a collection that may have taken place. Its objects are some of those before, as
    they were but for weak slots, and have the same labels. Without a collection, which would have
    been counted, they are all there. -/
structure Collected (first : μ) (before after : Heap (Reports μ)) (events : List Event) : Prop where
  upright : Upright first after
  idle : after.collecting = false
  roots : after.roots = before.roots
  cleared : before.stats.weakrefsCleared ≤ after.stats.weakrefsCleared
  objects : ∀ o ∈ after.objects.toList, o ∈ before.objects.toList
  kept : ∀ o, Kind.Kept before after o
  labels : after.host.labels = before.host.labels
  finalizers : ∀ entry ∈ after.finalizers.toList, entry ∈ before.finalizers.toList
  told : Told before after events
  registered : ∀ entry ∈ finalizerCalls events, entry ∈ before.finalizers.toList
  unnamed : ∀ event ∈ events, ∀ o, event.naming? o = none
  ungranted : grants events = []
  whole : after.stats.collections = before.stats.collections → after.objects = before.objects

theorem Collected.reported {before after : Heap (Reports μ)} {events : List Event}
    (h : Collected first before after events) : Reported before after events :=
  ⟨h.told, h.registered, events, [], (List.append_nil _).symm, h.unnamed, rfl⟩

def reporters : Array (Ref → Program (Reports μ)) :=
  #[Session.reporter false, Session.reporter true]

section Collections

variable {heap : Heap (Reports μ)}

omit [RawMemory μ] in
def called (heap : Heap (Reports μ)) (entries : List FinalizerEntry) : Heap (Reports μ) :=
  { heap with
    host :=
      { heap.host with
        messages := heap.host.messages ++ (entries.map heap.host.lineFor).toArray }
    stats := entries.foldl Stats.countFinalizer heap.stats
    journal := heap.journal ++
      (entries.map fun entry => Event.logged (.runningFinalizer entry)).toArray }

omit [RawMemory μ] in
theorem called_called (entries more : List FinalizerEntry) :
    called (called heap entries) more = called heap (entries ++ more) := by
  have same : (called heap entries).host.lineFor = heap.host.lineFor := rfl
  simp only [called] at same ⊢
  rw [same, List.map_append, List.map_append, List.foldl_append, ← List.append_toArray,
    ← List.append_toArray, Array.append_assoc, Array.append_assoc]

theorem runFinalizer_eq {entry : FinalizerEntry} (known : entry.queue.index < 2) :
    Collector.runFinalizer entry ⟨heap, reporters⟩ = .ok () ⟨called heap [entry], reporters⟩ := by
  obtain ⟨light, found, same⟩ : ∃ light, (reporters : Array (Ref → Program (Reports μ)))[
      entry.queue.index]? = some (Session.reporter light) ∧
        (light = true ↔ entry.queue = Session.queueOf true) := by
    have position : entry.queue.index = 0 ∨ entry.queue.index = 1 := by omega
    have second : entry.queue = Session.queueOf true ↔ entry.queue.index = 1 := by
      cases entry.queue
      simp [Session.queueOf]
    rw [second]
    rcases position with zero | one
    · exact ⟨false, by rw [zero]; rfl, by simp [zero]⟩
    · exact ⟨true, by rw [one]; rfl, by simp [one]⟩
  have reported : heap.host.report light entry.object =
      { heap.host with messages := heap.host.messages.push (heap.host.lineFor entry) } := by
    rw [Reports.report, Reports.lineFor]
    simp only [same]
  let noted := heap.record (.logged (.runningFinalizer entry))
  have after : called heap [entry] =
      { noted with
        host := heap.host.report light entry.object
        stats := heap.stats.countFinalizer entry } := by
    rw [reported]
    rfl
  rw [after]
  exact (Collector.runFinalizer_eq found).trans rfl

theorem runFinalizers_eq {entries : List FinalizerEntry}
    (known : ∀ entry ∈ entries, entry.queue.index < 2) :
    entries.forM Collector.runFinalizer ⟨heap, reporters⟩ =
      .ok () ⟨called heap entries, reporters⟩ := by
  induction entries generalizing heap with
  | nil =>
    have unchanged : called heap [] = heap := by simp [called]
    rw [unchanged]
    rfl
  | cons entry rest ih =>
    have others := @ih (called heap [entry]) fun entry member =>
      known entry (List.mem_cons_of_mem _ member)
    rw [called_called] at others
    exact (bind_of_ok (runFinalizer_eq (known entry List.mem_cons_self))).trans others

theorem Upright.called (upright : Upright first heap) (entries : List FinalizerEntry) :
    Upright first (called heap entries) := by
  refine upright.of_aside ⟨rfl, rfl, rfl, rfl, rfl, rfl, rfl, fun _ => .inl,
    entries.map fun entry => .logged (.runningFinalizer entry), ?_, ?_, ?_⟩ rfl upright.roots
    upright.memory
  · simp [Console.called]
  · rw [grants, List.filterMap_map]
    exact List.filterMap_eq_nil_iff.mpr fun _ _ => rfl
  · rw [releases, List.filterMap_map]
    exact List.filterMap_eq_nil_iff.mpr fun _ _ => rfl

omit [RawMemory μ] in
theorem finalizerCalls_called (entries : List FinalizerEntry) :
    finalizerCalls (entries.map fun entry => .logged (.runningFinalizer entry)) = entries := by
  rw [finalizerCalls, List.filterMap_map]
  exact (List.filterMap_congr fun _ _ => rfl).trans List.filterMap_some

omit [RawMemory μ] in
theorem stats_called (heap : Heap (Reports μ)) (entries : List FinalizerEntry) :
    (called heap entries).stats.finalizersRun = heap.stats.finalizersRun + entries.length ∧
      (called heap entries).stats.weakrefsCleared = heap.stats.weakrefsCleared ∧
      (called heap entries).stats.collections = heap.stats.collections := by
  rw [called]
  generalize heap.stats = stats
  induction entries generalizing stats with
  | nil => exact ⟨rfl, rfl, rfl⟩
  | cons entry rest ih =>
    rw [List.foldl_cons, List.length_cons]
    refine ⟨(ih _).1.trans ?_, (ih _).2⟩
    simp only [Stats.countFinalizer]
    omega

theorem releasedHost_eq (heap : Heap (Reports μ)) (objects : List Ref) :
    heap.releasedHost objects =
      { heap.host with memory := (heap.releasedHost objects).memory } := by
  rw [Heap.releasedHost]
  generalize heap.host = host
  induction objects generalizing host with
  | nil => rfl
  | cons object rest ih => exact ih _

def ended (heap : Heap (Reports μ)) (record : LogRecord) : Heap (Reports μ) :=
  { heap with
    previousHeapSize := max heap.heapSize heap.growth.minHeapSize
    collecting := false
    journal := heap.journal.push (.logged record) }

def callings (entries : List FinalizerEntry) (record : LogRecord) : List Event :=
  (entries.map fun entry => .logged (.runningFinalizer entry)) ++ [.logged record]

omit [RawMemory μ] in
theorem told_over (swept : Heap (Reports μ)) (entries : List FinalizerEntry) {record : LogRecord}
    (uncalled : Event.call? (.logged record) = none) :
    Told swept (ended (called swept entries) record) (callings entries record) ∧
      finalizerCalls (callings entries record) = entries := by
  have all_called : finalizerCalls (callings entries record) = entries := by
    have none_called : finalizerCalls [.logged record] = [] := List.filterMap_cons_none uncalled
    rw [callings, finalizerCalls_append, finalizerCalls_called, none_called, List.append_nil]
  refine ⟨⟨?_, ?_, ?_⟩, all_called⟩
  · simp [ended, called, callings]
  · rw [all_called]
    simp [ended, called]
  · rw [all_called]
    exact (stats_called swept entries).1

omit [RawMemory μ] in
theorem grants_callings (entries : List FinalizerEntry) (record : LogRecord) :
    grants (callings entries record) = [] := by
  rw [grants, List.filterMap_eq_nil_iff]
  intro event member
  rcases List.mem_append.mp member with calling | last
  · obtain ⟨entry, _, rfl⟩ := List.mem_map.mp calling
    rfl
  · rw [List.mem_singleton.mp last]
    rfl

theorem Told.of_reclaimed {before swept : Heap (Reports μ)} {cycle : Cycle}
    (h : before.Reclaimed cycle swept) :
    swept.host = { before.host with memory := swept.host.memory } ∧
      ∃ events, Told before swept events ∧ finalizerCalls events = [] ∧
        ∀ event ∈ events, ∀ o, event.naming? o = none := by
  have host : swept.host = { before.host with memory := swept.host.memory } := by
    rw [h.host]
    exact releasedHost_eq before _
  obtain ⟨events, journal, quiet⟩ := h.exists_events
  have none_called : finalizerCalls events = [] :=
    List.filterMap_eq_nil_iff.mpr fun event member => (quiet event member).1
  refine ⟨host, events, ⟨journal, ?_, ?_⟩, none_called, fun event member => (quiet event member).2⟩
  · rw [none_called, host, List.map_nil, List.append_nil]
  · rw [none_called, h.stats]
    rfl

theorem exists_collect (upright : Upright first heap) (idle : heap.collecting = false) :
    ∃ after events, Collector.collect ⟨heap, reporters⟩ = .ok () ⟨after, reporters⟩ ∧
      Collected first heap after events := by
  obtain ⟨cycle, swept, run, spec⟩ := Heap.exists_reclaimed upright.consistent upright.traceable
  have due : ∀ entry ∈ cycle.scheduled, entry ∈ heap.finalizers.toList :=
    fun _ member => spec.divides.scheduled_sublist.subset member
  have finalized := @runFinalizers_eq μ _ swept cycle.scheduled fun entry member =>
    upright.queued entry (due entry member)
  obtain ⟨record, finished, uncalled, unnamed⟩ : ∃ record,
      Heap.finish cycle (called swept cycle.scheduled) =
        .ok () (ended (called swept cycle.scheduled) record) ∧
      Event.call? (.logged record) = none ∧ ∀ o, Event.naming? o (.logged record) = none :=
    ⟨_, rfl, rfl, fun _ => rfl⟩
  obtain ⟨aside, idle'⟩ := Heap.finish_eq_ok finished
  have upright' := (upright.reclaimed spec).called cycle.scheduled
  obtain ⟨host, events, told, none_called, unnamed'⟩ := Told.of_reclaimed spec
  obtain ⟨told', all_called⟩ := told_over swept cycle.scheduled uncalled
  refine ⟨ended (called swept cycle.scheduled) record, _, ?_, {
    upright := upright'.of_aside aside rfl upright'.roots upright'.memory
    idle := idle'
    roots := spec.roots
    cleared := ?_
    objects := fun o member => (spec.mem_objects.mp member).1
    kept := fun o =>
      (Kind.kept_of_reclaimed upright.types spec o).trans (Kind.kept_of_memory rfl)
    labels := by
      change swept.host.labels = _
      rw [host]
    finalizers := fun entry member => spec.divides.kept_sublist.subset member
    told := told.trans told' (by rw [host]; rfl)
    registered := ?_
    unnamed := ?_
    ungranted := ?_
    whole := ?_ }⟩
  · rw [Collector.collect_eq_conclude idle run, Collector.conclude, bind_of_ok finalized]
    exact Collector.onHeap_of_ok finished
  · change _ ≤ (called swept cycle.scheduled).stats.weakrefsCleared
    rw [(stats_called swept cycle.scheduled).2.1, spec.stats]
    exact Nat.le_add_right _ _
  · rw [finalizerCalls_append, none_called, all_called]
    exact due
  · intro event member o
    rcases List.mem_append.mp member with early | late
    · exact unnamed' event early o
    · rcases List.mem_append.mp late with calling | last
      · obtain ⟨entry, _, rfl⟩ := List.mem_map.mp calling
        rfl
      · rw [List.mem_singleton.mp last]
        exact unnamed o
  · have none_granted : grants events = [] := by
      have same := spec.grants_eq
      rw [told.journal, grants, List.filterMap_append] at same
      exact List.append_right_eq_self.mp same
    rw [grants, List.filterMap_append, ← grants, none_granted, List.nil_append]
    exact grants_callings cycle.scheduled record
  · intro uncounted
    change (called swept cycle.scheduled).stats.collections = _ at uncounted
    rw [(stats_called swept cycle.scheduled).2.2, spec.stats] at uncounted
    exact absurd uncounted (Nat.succ_ne_self _)

theorem Collected.refl (upright : Upright first heap) (idle : heap.collecting = false) :
    Collected first heap heap [] where
  upright := upright
  idle := idle
  roots := rfl
  cleared := Nat.le_refl _
  objects := fun _ member => member
  kept := fun _ => .refl
  labels := rfl
  finalizers := fun _ member => member
  told := .refl
  registered := nofun
  unnamed := nofun
  ungranted := rfl
  whole := fun _ => rfl

theorem Collected.of_log {after : Heap (Reports μ)} {record : LogRecord} {events : List Event}
    (h : Collected first (heap.record (.logged record)) after events)
    (uncalled : Event.call? (.logged record) = none)
    (unnamed : ∀ o, Event.naming? o (.logged record) = none) :
    Collected first heap after ([.logged record] ++ events) where
  upright := h.upright
  idle := h.idle
  roots := h.roots
  cleared := h.cleared
  objects := h.objects
  kept := by
    intro o
    have noted : Kind.Kept heap (heap.record (.logged record)) o := Kind.kept_of_memory rfl
    exact noted.trans (h.kept o)
  labels := h.labels
  finalizers := h.finalizers
  told := by
    have noted : Told heap (heap.record (.logged record)) [.logged record] :=
      .event rfl uncalled rfl rfl
    exact noted.trans h.told rfl
  registered := by
    have none_called : finalizerCalls [.logged record] = [] := List.filterMap_cons_none uncalled
    rw [finalizerCalls_append, none_called]
    exact h.registered
  unnamed := by
    intro event member o
    rcases List.mem_append.mp member with early | late
    · rw [List.mem_singleton.mp early]
      exact unnamed o
    · exact h.unnamed event late o
  ungranted := h.ungranted
  whole := h.whole

inductive Allocation (first : μ) (heap : Heap (Reports μ)) (request : Request) :
    Except AllocError Ref → Heap (Reports μ) → Prop where
  | rejected {error : AllocError} (rejected : request.accept heap.types 2 = .error error) :
      Allocation first heap request (.error error) heap
  | refused {cost : Word} {ready : Heap (Reports μ)} {events : List Event} {error : ChunkError}
      {host : Reports μ} (accepted : request.accept heap.types 2 = .ok cost)
      (collected : Collected first heap ready events)
      (answer : RawMemory.request cost ready.host = (.error error, host)) :
      Allocation first heap request (.error (.allocationFailed error))
        ({ ready with host }.record (.requested cost (.error error)))
  | granted {cost : Word} {ready after : Heap (Reports μ)} {events : List Event} {object : Ref}
      (accepted : request.accept heap.types 2 = .ok cost)
      (collected : Collected first heap ready events)
      (granted : ready.Granted after request cost object)
      (fresh : object ∉ ready.objects.toList) :
      Allocation first heap request (.ok object) after

theorem exists_allocateNow (fresh : RawMemory.Fresh first) {ready : Heap (Reports μ)}
    {events : List Event} (collected : Collected first heap ready events) {request : Request}
    {cost : Word} (accepted : request.accept heap.types 2 = .ok cost)
    (types : ready.types = heap.types) (internal : request.isExternal = false) :
    ∃ answer after, Heap.allocateNow request cost ready = .ok answer after ∧
      Upright first after ∧ after.collecting = false ∧
      Allocation first heap request answer after := by
  have upright := collected.upright
  obtain ⟨descriptor, admitted⟩ := Request.exists_admitted accepted
  rw [← types] at admitted
  cases answered : RawMemory.request cost ready.host with
  | mk answer host =>
    have asked := Reports.request_eq answered
    cases answer with
    | error error =>
      refine ⟨_, _, Heap.allocateNow_of_refused answered, ?_, collected.idle,
        .refused accepted collected answered⟩
      have aside : ready.Aside ({ ready with host }.record (.requested cost (.error error))) :=
        ⟨rfl, rfl, rfl, rfl, rfl, rfl, rfl, fun _ => .inl, [.requested cost (.error error)],
          Array.toList_push, rfl, rfl⟩
      exact upright.of_aside aside rfl upright.roots (upright.memory.refused asked)
    | ok object =>
      -- the memory grants what fits beside the blocks that are held, so the heap size has room
      have fits : ready.ledger.Fits (object, cost) :=
        fresh _ _ upright.memory _ _ _ asked
      obtain ⟨after, run, granted⟩ := Heap.allocateNow_of_granted answered
        (upright.accounted.room upright.consistent fits)
      have setup := Heap.keepsSetup_allocateNow request cost run
      obtain ⟨_, _, total⟩ := admitted.size
      have large := le_of_allocationCost? total
      have unused := upright.accounted.fresh_of_fits fits (by omega)
      rw [upright.live_eq] at unused
      exact ⟨_, after, run, upright.granted granted fits admitted internal setup.scanners,
        granted.collecting.trans collected.idle, .granted accepted collected granted unused⟩

theorem exists_allocate (fresh : RawMemory.Fresh first) (upright : Upright first heap)
    (idle : heap.collecting = false) {request : Request} (internal : request.isExternal = false) :
    ∃ answer after, Collector.apply (.allocate request) ⟨heap, reporters⟩ =
        .ok answer ⟨after, reporters⟩ ∧
      Upright first after ∧ after.collecting = false ∧
      Allocation first heap request answer after := by
  have unfold (answer : _) : Collector.apply (.allocate request) ⟨heap, reporters⟩ = answer ↔
      Collector.allocate Collector.collect request ⟨heap, reporters⟩ = answer := Iff.rfl
  simp only [unfold]
  cases accepted : request.accept heap.types 2 with
  | error error =>
    refine ⟨.error error, heap, ?_, upright, idle, .rejected accepted⟩
    have refused : request.accept heap.types (reporters : Array (Ref → Program (Reports μ))).size =
        .error error := accepted
    rw [Collector.allocate, get_bind]
    simp only [refused]
    rfl
  | ok cost =>
    by_cases large : ¬ request.isExternal ∧ heap.exceedsThreshold cost
    · let noted := heap.record (.logged
        (.thresholdExceeded cost heap.heapSize heap.threshold))
      have upright' : Upright first noted :=
        upright.of_aside (Heap.aside_record _ _) rfl upright.roots upright.memory
      obtain ⟨middle, events, run, collected⟩ := exists_collect upright' idle
      have types : middle.types = heap.types := collected.upright.types.trans upright.types.symm
      obtain ⟨answer, after, allocated, spec⟩ := exists_allocateNow fresh
        (collected.of_log rfl fun _ => rfl) accepted types internal
      refine ⟨answer, after, ?_, spec⟩
      have start : Collector.allocate Collector.collect request ⟨heap, reporters⟩ =
          (Collector.collect >>= fun _ => Collector.onHeap (Heap.allocateNow request cost))
            ⟨noted, reporters⟩ :=
        Collector.allocate_of_exceed Collector.collect accepted large
      rw [start, bind_of_ok run]
      exact Collector.onHeap_of_ok allocated
    · obtain ⟨answer, after, allocated, spec⟩ := exists_allocateNow fresh
        (.refl upright idle) accepted rfl internal
      refine ⟨answer, after, ?_, spec⟩
      have start : Collector.allocate Collector.collect request ⟨heap, reporters⟩ =
          Collector.onHeap (Heap.allocateNow request cost) ⟨heap, reporters⟩ :=
        Collector.allocate_of_accept Collector.collect accepted large
      rw [start]
      exact Collector.onHeap_of_ok allocated

namespace Allocation

variable {request : Request} {answer : Except AllocError Ref} {after : Heap (Reports μ)}

theorem roots (h : Allocation first heap request answer after) : after.roots = heap.roots := by
  cases h with
  | rejected => rfl
  | refused _ collected => exact collected.roots
  | granted _ collected granted => exact granted.roots.trans collected.roots

theorem cleared (h : Allocation first heap request answer after) :
    heap.stats.weakrefsCleared ≤ after.stats.weakrefsCleared := by
  cases h with
  | rejected => exact Nat.le_refl _
  | refused _ collected => exact collected.cleared
  | granted _ collected granted =>
    rw [granted.stats]
    exact collected.cleared

theorem mem_objects {object : Ref} (h : Allocation first heap request (.ok object) after)
    (internal : request.isExternal = false) :
    object ∈ after.objects.toList ∧ (after.memory.header object).typeId = request.typeId := by
  cases h with
  | granted _ _ granted =>
    refine ⟨?_, granted.typeId⟩
    rw [granted.objects, internal]
    exact List.mem_append_right _ (List.mem_singleton.mpr rfl)

end Allocation

end Collections

end Reclaim.Console
