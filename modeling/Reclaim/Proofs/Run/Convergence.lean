import Mathlib.Data.List.Perm.Subperm
import Reclaim.Proofs.Cycle.Exactness
import Reclaim.Proofs.Run.Reentrancy
import Reclaim.Proofs.Run.WeakReferences

namespace Reclaim

def Descriptor.IgnoresWeakSlot (descriptor : Descriptor) : Prop :=
  ∀ slot, descriptor.weakOffset = some slot → ∀ (view : View) word,
    descriptor.trace { view with payload := view.payload.writeWord slot.toNat word } =
      descriptor.trace view

def TypeTable.IgnoresWeakSlots (types : TypeTable) : Prop :=
  ∀ typeId descriptor, types.get? typeId = some descriptor → descriptor.IgnoresWeakSlot

theorem Trace.slots_congr {offsets : List Word} {view other : View}
    (same : ∀ offset ∈ offsets, other.readRef offset = view.readRef offset) :
    slots offsets other = slots offsets view := by
  have read : offsets.mapM other.readRef = offsets.mapM view.readRef := by
    induction offsets with
    | nil => rw [List.mapM_nil, List.mapM_nil]
    | cons offset rest ih =>
      rw [List.mapM_cons, List.mapM_cons, same offset List.mem_cons_self,
        ih fun offset member => same offset (List.mem_cons_of_mem _ member)]
  rw [slots, slots, read]

theorem Descriptor.ignoresWeakSlot_of_slots {descriptor : Descriptor} {offsets : List Word}
    (trace : descriptor.trace = .slots offsets)
    (apart : ∀ slot, descriptor.weakOffset = some slot → ∀ offset ∈ offsets,
      Payload.Apart slot.toNat offset.toNat) : descriptor.IgnoresWeakSlot := by
  intro slot weak view word
  rw [trace]
  apply Trace.slots_congr
  intro offset traced
  simp only [View.readRef, View.readWord,
    Payload.readWord_writeWord_of_apart _ _ (apart slot weak offset traced)]

section Divides

variable {types : TypeTable} {memory : Memory} {starts : List Ref}
  {entries kept scheduled : List FinalizerEntry}

theorem Divides.dead_of_scheduled (h : Divides (types.Reachable memory) starts entries kept scheduled)
    {entry : FinalizerEntry} (member : entry ∈ scheduled) :
    ¬ types.Reachable memory starts entry.object := by
  induction h with
  | nil => cases member
  | keep _ _ ih => exact fun alive => ih member (alive.append _)
  | schedule dead _ ih =>
    rcases List.mem_cons.mp member with rfl | later
    · exact dead
    · exact fun alive => ih later (alive.append _)

theorem Divides.exists_scheduled
    (h : Divides (types.Reachable memory) starts entries kept scheduled) {entry : FinalizerEntry}
    (member : entry ∈ entries) (dead : ¬ types.Reachable memory starts entry.object) :
    scheduled ≠ [] := by
  induction h with
  | nil => cases member
  | keep alive _ ih =>
    rcases List.mem_cons.mp member with rfl | later
    · exact absurd alive dead
    -- an entry whose object is reached adds nothing to what the starts reach
    · exact ih later fun reached => dead ((TypeTable.reachable_append_singleton alive).mp reached)
  | schedule => exact List.cons_ne_nil _ _

end Divides

namespace Collector

variable {σ : Type} [RawMemory σ] {before after : Collector σ}

/-- A whole collection that calls these finalizers, one after the other and each through its
    callback, and no others. -/
structure Finalizes (before : Collector σ) (called : List FinalizerEntry)
    (after : Collector σ) : Prop where
  collected : collect before = .ok () after
  known : ∀ entry ∈ called, entry.queue.index < before.queues.size
  calls : ∃ history,
    Relation.ReflTransGen Step (.opening before) ⟨after, .code .outside (.run .done), history⟩ ∧
      history.filter Happening.isInvocation = called.flatMap before.invocation

theorem Finalizes.of_collect {cycle : Cycle} {swept : Heap σ}
    (idle : before.heap.collecting = false) (reclaimed : Heap.reclaim before.heap = .ok cycle swept)
    (spec : before.heap.Reclaimed cycle swept)
    (known : ∀ entry ∈ cycle.scheduled, entry.queue.index < before.queues.size)
    (collected : collect before = .ok () after) : before.Finalizes cycle.scheduled after := by
  obtain ⟨_, _, history, again, first, course⟩ := exists_course idle collected
  cases reclaimed.symm.trans again
  have underway := (Underway.opened swept known).of_steps rfl spec.collecting course
  refine ⟨collected, known, history, .head first course, ?_⟩
  exact (List.append_nil _).symm.trans underway.invocations

/-- Collections one after the other, with the finalizers that they have called. -/
inductive Rounds (first : Collector σ) : Nat → List FinalizerEntry → Collector σ → Prop
  | none : Rounds first 0 [] first
  | more {rounds : Nat} {called more : List FinalizerEntry} {middle after : Collector σ}
      (earlier : Rounds first rounds called middle) (last : middle.Finalizes more after) :
      Rounds first (rounds + 1) (called ++ more) after

def collects : Nat → CollectorM σ Unit
  | 0 => return ()
  | n + 1 => do
    collects n
    collect

theorem Rounds.collects_eq {rounds : Nat} {called : List FinalizerEntry}
    (h : Rounds before rounds called after) : collects rounds before = .ok () after := by
  induction h with
  | none => rfl
  | more _ last ih => exact (bind_of_ok ih).trans last.collected

end Collector

namespace Heap

variable {σ : Type}

open Classical in
/-- The pending finalizers whose objects are reached neither from the roots nor from the external
    objects. -/
noncomputable def stray (heap : Heap σ) : List FinalizerEntry :=
  heap.finalizers.toList.filter fun entry =>
    ¬ heap.types.Reachable heap.memory heap.rootObjects entry.object

open Classical in
/-- The registry objects that are reached from the roots and the external objects, in their order.
    -/
noncomputable def strong (heap : Heap σ) : List Ref :=
  heap.objects.toList.filter fun o => heap.types.Reachable heap.memory heap.rootObjects o

theorem mem_stray {heap : Heap σ} {entry : FinalizerEntry} : entry ∈ heap.stray ↔
    entry ∈ heap.finalizers.toList ∧
      ¬ heap.types.Reachable heap.memory heap.rootObjects entry.object := by
  simp only [stray, List.mem_filter, decide_eq_true_eq]

theorem mem_strong {heap : Heap σ} {o : Ref} : o ∈ heap.strong ↔
    o ∈ heap.objects.toList ∧ heap.types.Reachable heap.memory heap.rootObjects o := by
  simp only [strong, List.mem_filter, decide_eq_true_eq]

theorem reachable_of_no_stray {heap : Heap σ} (none_stray : heap.stray = [])
    {entry : FinalizerEntry} (registered : entry ∈ heap.finalizers.toList) :
    heap.types.Reachable heap.memory heap.rootObjects entry.object := by
  by_contra dead
  have member := mem_stray.mpr ⟨registered, dead⟩
  rw [none_stray] at member
  cases member

theorem retained_iff_of_no_stray {heap : Heap σ} (none_stray : heap.stray = []) {o : Ref} :
    heap.Retained o ↔ heap.types.Reachable heap.memory heap.rootObjects o := by
  refine ⟨TypeTable.Reachable.mono fun s member => ?_, fun reached => reached.append _⟩
  rcases List.mem_append.mp member with root | pending
  · exact .start root
  · obtain ⟨entry, registered, rfl⟩ := List.mem_map.mp pending
    exact reachable_of_no_stray none_stray registered

variable [RawMemory σ] {before after : Heap σ} {cycle : Cycle}

theorem Reclaimed.children (ignores : before.types.IgnoresWeakSlots) (valid : before.types.Valid)
    (h : before.Reclaimed cycle after) (o : Ref) :
    after.types.children after.memory o = before.types.children before.memory o := by
  rw [h.types]
  by_cases emptied : o ∈ before.bereft
  · obtain ⟨slot, found, payload⟩ := h.payload_bereft o emptied
    have same := h.sameShape valid o
    rw [TypeTable.children_eq_trace, TypeTable.children_eq_trace, same.typeId]
    cases known : before.types.get? (before.memory.header o).typeId with
    | none => rfl
    | some descriptor =>
      have weak : descriptor.weakOffset = some slot := by
        simpa [TypeTable.weakSlot?, known] using found
      simp only [Layout.payloadSize_congr (same.length descriptor known)]
      cases descriptor.layout.payloadSize (before.memory.payload o) with
      | error fault => rfl
      | ok size =>
        rw [payload]
        exact ignores _ _ known slot weak
          { object := o, typeId := (before.memory.header o).typeId, payloadLength := size,
            payload := before.memory.payload o } 0
  · exact TypeTable.children_congr (h.typeId o) (h.payload_kept o emptied)

theorem Reclaimed.reachable_eq (ignores : before.types.IgnoresWeakSlots)
    (valid : before.types.Valid) (h : before.Reclaimed cycle after) :
    after.types.Reachable after.memory = before.types.Reachable before.memory := by
  have same := h.children ignores valid
  rw [h.types] at same ⊢
  exact TypeTable.reachable_eq same

theorem Reclaimed.traceable (ignores : before.types.IgnoresWeakSlots)
    (consistent : before.Consistent) (traceable : before.Traceable)
    (h : before.Reclaimed cycle after)
    (scans : ∀ scan ∈ before.scanners.toList, scan after.host = scan before.host) :
    after.Traceable where
  scanners_live := by
    intro scan scanner o listed
    rw [h.scanners] at scanner
    rw [scans scan scanner] at listed
    refine h.mem_live.mpr ⟨traceable.scanners_live scan scanner o listed, .start ?_⟩
    simp only [rootObjects, List.mem_append, List.mem_flatMap]
    exact .inl (.inl (.inr ⟨scan, scanner, listed⟩))
  children_live := by
    intro o member
    obtain ⟨live, retained⟩ := h.mem_live.mp member
    obtain ⟨children, reported, inside⟩ := traceable.children_live o live
    refine ⟨children, (h.children ignores consistent.types_valid o).trans reported, ?_⟩
    exact fun c child => h.mem_live.mpr ⟨inside c child, retained.child reported child⟩

def concluded (swept : Heap σ) (called : List FinalizerEntry) (host : σ) (journal : Array Event) :
    Heap σ :=
  { swept with
    host
    journal
    stats := called.foldl Stats.countFinalizer swept.stats
    previousHeapSize := max swept.heapSize swept.growth.minHeapSize
    collecting := false }

/-- A callback that leaves the heap as it is: it may change the embedder's state, but not what the
    scanners list, and log what it likes. -/
def LeavesAlone (heap : Heap σ) (queues : Array (Ref → Program σ)) (program : Program σ) : Prop :=
  ∃ host journal, program.runWith Collector.collectWithin ⟨heap, queues⟩ =
      .ok () ⟨{ heap with host, journal }, queues⟩ ∧
    ∀ scan ∈ heap.scanners.toList, scan host = scan heap.host

structure During (heap during : Heap σ) : Prop where
  consistent : during.Consistent
  traceable : during.Traceable
  collecting : during.collecting = true
  growth : during.growth = heap.growth
  types : during.types = heap.types
  external : during.external = heap.external
  roots : during.roots = heap.roots
  scanners : during.scanners = heap.scanners

/-- An idle heap whose finalizers leave the heap alone and whose roots do not change when memory is
    given back. -/
structure Steady (heap : Heap σ) (queues : Array (Ref → Program σ)) : Prop where
  consistent : heap.Consistent
  traceable : heap.Traceable
  idle : heap.collecting = false
  ignores : heap.types.IgnoresWeakSlots
  known : ∀ entry ∈ heap.finalizers.toList, entry.queue.index < queues.size
  unscanned : ∀ scan ∈ heap.scanners.toList, ∀ object size host,
    scan (RawMemory.release object size host) = scan host
  callbacks : ∀ entry ∈ heap.finalizers.toList, ∀ callback,
    queues[entry.queue.index]? = some callback → ∀ during : Heap σ, heap.During during →
      entry.object ∈ during.objects.toList → during.LeavesAlone queues (callback entry.object)

theorem Steady.scan_releasedHost {heap : Heap σ} {queues : Array (Ref → Program σ)}
    (steady : heap.Steady queues) (objects : List Ref) :
    ∀ scan ∈ heap.scanners.toList, scan (heap.releasedHost objects) = scan heap.host := by
  intro scan scanner
  rw [releasedHost]
  generalize heap.host = host
  induction objects generalizing host with
  | nil => rfl
  | cons object rest ih =>
    rw [List.foldl_cons, ih]
    exact steady.unscanned scan scanner _ _ _

section Calls

variable {heap : Heap σ} {queues : Array (Ref → Program σ)}

theorem exists_runFinalizer {entry : FinalizerEntry} {callback : Ref → Program σ}
    (found : queues[entry.queue.index]? = some callback)
    (alone : (heap.record (.logged (.runningFinalizer entry))).LeavesAlone queues
      (callback entry.object)) :
    ∃ host journal, Collector.runFinalizer entry ⟨heap, queues⟩ =
        .ok () ⟨{ heap with host, journal, stats := heap.stats.countFinalizer entry }, queues⟩ ∧
      ∀ scan ∈ heap.scanners.toList, scan host = scan heap.host := by
  obtain ⟨host, journal, called, scans⟩ := alone
  refine ⟨host, journal, ?_, scans⟩
  rw [Collector.runFinalizer_eq found]
  exact bind_of_ok called

theorem exists_runFinalizers {start : Heap σ} {entries : List FinalizerEntry}
    (during : start.During heap) (known : ∀ entry ∈ entries, entry.queue.index < queues.size)
    (live : ∀ entry ∈ entries, entry.object ∈ heap.objects.toList)
    (callbacks : ∀ entry ∈ entries, ∀ callback, queues[entry.queue.index]? = some callback →
      ∀ during : Heap σ, start.During during → entry.object ∈ during.objects.toList →
        during.LeavesAlone queues (callback entry.object)) :
    ∃ host journal, entries.forM Collector.runFinalizer ⟨heap, queues⟩ =
        .ok () ⟨{ heap with host, journal, stats := entries.foldl Stats.countFinalizer heap.stats },
          queues⟩ ∧
      (∀ scan ∈ heap.scanners.toList, scan host = scan heap.host) ∧
      (entries = [] → host = heap.host ∧ journal = heap.journal) := by
  induction entries generalizing heap with
  | nil => exact ⟨heap.host, heap.journal, rfl, fun _ _ => rfl, fun _ => ⟨rfl, rfl⟩⟩
  | cons entry rest ih =>
    have found := Array.getElem?_eq_getElem (known entry List.mem_cons_self)
    have consistent := during.consistent
    have traceable := during.traceable
    obtain ⟨host, journal, called, scans⟩ := exists_runFinalizer found
      (callbacks entry List.mem_cons_self _ found _
        { during with consistent := { consistent with }, traceable := { traceable with } }
        (live entry List.mem_cons_self))
    -- the next callback finds the heap as this one did, but for the host, the journal and the count
    let middle : Heap σ := { heap with host, journal, stats := heap.stats.countFinalizer entry }
    have still : start.During middle :=
      { during with
        consistent := { consistent with }
        traceable :=
          { scanners_live := fun scan scanner o listed =>
              traceable.scanners_live scan scanner o (scans scan scanner ▸ listed)
            children_live := traceable.children_live } }
    obtain ⟨host', journal', others, scans', _⟩ := @ih middle still
      (fun entry member => known entry (List.mem_cons_of_mem _ member))
      (fun entry member => live entry (List.mem_cons_of_mem _ member))
      fun entry member => callbacks entry (List.mem_cons_of_mem _ member)
    refine ⟨host', journal', (bind_of_ok called).trans others, ?_, nofun⟩
    exact fun scan scanner => (scans' scan scanner).trans (scans scan scanner)

end Calls

/-- What one whole collection has done to a heap: `swept` is the heap when its sweep was over. -/
structure Round (before : Heap σ) (cycle : Cycle) (swept after : Heap σ) : Prop where
  reclaimed : before.Reclaimed cycle swept
  after_eq : after = swept.concluded cycle.scheduled after.host after.journal
  scans : ∀ scan ∈ before.scanners.toList, scan after.host = scan before.host
  quiet : cycle.scheduled = [] → after.host = swept.host ∧
    ∃ record, after.journal.toList = swept.journal.toList ++ [.logged record]

section Round

variable {heap swept : Heap σ} {queues : Array (Ref → Program σ)}

theorem Reclaimed.exists_round {host : σ} {journal : Array Event}
    (h : heap.Reclaimed cycle swept) (idle : heap.collecting = false)
    (run : reclaim heap = .ok cycle swept)
    (called : cycle.scheduled.forM Collector.runFinalizer ⟨swept, queues⟩ = .ok ()
      ⟨{ swept with
          host
          journal
          stats := cycle.scheduled.foldl Stats.countFinalizer swept.stats }, queues⟩)
    (scans : ∀ scan ∈ heap.scanners.toList, scan host = scan heap.host)
    (quiet : cycle.scheduled = [] → host = swept.host ∧ journal = swept.journal) :
    ∃ after, Collector.collect ⟨heap, queues⟩ = .ok () ⟨after, queues⟩ ∧
      heap.Round cycle swept after := by
  let finalized : Heap σ :=
    { swept with host, journal, stats := cycle.scheduled.foldl Stats.countFinalizer swept.stats }
  obtain ⟨record, finished⟩ : ∃ record, Heap.finish cycle finalized = .ok ()
      (swept.concluded cycle.scheduled host (journal.push (.logged record))) := ⟨_, rfl⟩
  refine ⟨swept.concluded cycle.scheduled host (journal.push (.logged record)), ?_, h, rfl, scans,
    ?_⟩
  · rw [Collector.collect_eq_conclude idle run, Collector.conclude, bind_of_ok called]
    exact Collector.onHeap_of_ok finished
  · intro none
    obtain ⟨rfl, rfl⟩ := quiet none
    exact ⟨rfl, record, Array.toList_push⟩

theorem Steady.exists_round (steady : heap.Steady queues) :
    ∃ cycle swept after,
      Collector.Finalizes ⟨heap, queues⟩ cycle.scheduled ⟨after, queues⟩ ∧
      heap.Round cycle swept after := by
  obtain ⟨cycle, swept, run, spec⟩ := exists_reclaimed steady.consistent steady.traceable
  have scans : ∀ scan ∈ heap.scanners.toList, scan swept.host = scan heap.host := by
    rw [spec.host]
    exact steady.scan_releasedHost heap.unreached
  have during : heap.During swept :=
    { consistent := spec.consistent steady.consistent
      traceable := spec.traceable steady.ignores steady.consistent steady.traceable scans
      collecting := spec.collecting
      growth := spec.growth
      types := spec.types
      external := spec.external
      roots := spec.roots
      scanners := spec.scanners }
  have pending : ∀ entry ∈ cycle.scheduled, entry ∈ heap.finalizers.toList :=
    fun _ member => spec.divides.scheduled_sublist.subset member
  have known : ∀ entry ∈ cycle.scheduled, entry.queue.index < queues.size :=
    fun entry member => steady.known entry (pending entry member)
  obtain ⟨host, journal, called, scans', quiet⟩ := exists_runFinalizers during known
    (fun entry member => spec.mem_objects_of_scheduled steady.consistent member)
    fun entry member => steady.callbacks entry (pending entry member)
  obtain ⟨after, ran, round⟩ := spec.exists_round steady.idle run called
    (fun scan scanner => (scans' scan (spec.scanners ▸ scanner)).trans (scans scan scanner)) quiet
  exact ⟨cycle, swept, after, .of_collect steady.idle run spec known ran, round⟩

theorem Reclaimed.scheduled_eq_nil (h : before.Reclaimed cycle after)
    (none_stray : before.stray = []) : cycle.scheduled = [] := by
  have divides := h.divides
  rw [List.eq_nil_iff_forall_not_mem]
  intro entry called
  exact divides.dead_of_scheduled called
    (reachable_of_no_stray none_stray (divides.scheduled_sublist.subset called))

variable (round : before.Round cycle swept after)

include round

theorem Round.types : after.types = before.types := by
  rw [round.after_eq]
  exact round.reclaimed.types

theorem Round.scanners : after.scanners = before.scanners := by
  rw [round.after_eq]
  exact round.reclaimed.scanners

theorem Round.external : after.external = before.external := by
  rw [round.after_eq]
  exact round.reclaimed.external

theorem Round.memory : after.memory = swept.memory := by
  rw [round.after_eq]
  rfl

theorem Round.finalizers : after.finalizers = swept.finalizers := by
  rw [round.after_eq]
  rfl

theorem Round.objects : after.objects.toList = before.reached := by
  rw [round.after_eq]
  exact round.reclaimed.objects

theorem Round.stats (none_called : cycle.scheduled = []) :
    after.stats = before.stats.count cycle := by
  rw [round.after_eq, ← round.reclaimed.stats]
  simp only [concluded, none_called, List.foldl_nil]

theorem Round.rootObjects : after.rootObjects = before.rootObjects := by
  have scanned : after.scanners.toList.flatMap (fun scan => scan after.host) =
      before.scanners.toList.flatMap fun scan => scan before.host := by
    rw [round.scanners]
    exact List.flatMap_congr round.scans
  have roots : after.roots = before.roots := by
    rw [round.after_eq]
    exact round.reclaimed.roots
  rw [Heap.rootObjects, Heap.rootObjects, roots, round.external, scanned]

theorem Round.consistent (consistent : before.Consistent) : after.Consistent := by
  have kept := round.reclaimed.consistent consistent
  rw [round.after_eq]
  exact { kept with }

theorem Round.traceable (ignores : before.types.IgnoresWeakSlots) (consistent : before.Consistent)
    (traceable : before.Traceable)
    (scans : ∀ scan ∈ before.scanners.toList, scan swept.host = scan before.host) :
    after.Traceable := by
  have kept := round.reclaimed.traceable ignores consistent traceable scans
  have live : after.live = swept.live := by
    rw [round.after_eq]
    rfl
  constructor
  · intro scan scanner o listed
    rw [round.scanners] at scanner
    rw [round.scans scan scanner, ← scans scan scanner] at listed
    rw [live]
    exact kept.scanners_live scan (round.reclaimed.scanners ▸ scanner) o listed
  · rw [live, round.types, round.memory, ← round.reclaimed.types]
    exact kept.children_live

theorem Round.exists_called (due : before.stray ≠ []) : cycle.scheduled ≠ [] := by
  obtain ⟨entry, member⟩ := List.exists_mem_of_ne_nil _ due
  obtain ⟨registered, dead⟩ := mem_stray.mp member
  exact round.reclaimed.divides.exists_scheduled registered dead

section Ignores

variable (ignores : before.types.IgnoresWeakSlots) (valid : before.types.Valid)

include ignores valid

theorem Round.reachable_eq :
    after.types.Reachable after.memory after.rootObjects =
      before.types.Reachable before.memory before.rootObjects := by
  have same := round.reclaimed.reachable_eq ignores valid
  rw [round.reclaimed.types] at same
  rw [round.rootObjects, round.types, round.memory, same]

theorem Round.strong_eq : after.strong = before.strong := by
  classical
  rw [strong, strong, round.objects, round.reachable_eq ignores valid, reached, List.filter_filter]
  apply List.filter_congr
  intro o _
  rw [← Bool.decide_and, decide_eq_decide]
  exact and_iff_left_of_imp fun reached => reached.append _

theorem Round.stray_eq_nil (none_stray : before.stray = []) : after.stray = [] := by
  rw [List.eq_nil_iff_forall_not_mem]
  intro entry member
  rw [mem_stray, round.finalizers, round.reachable_eq ignores valid] at member
  exact member.2
    (reachable_of_no_stray none_stray (round.reclaimed.divides.kept_sublist.subset member.1))

theorem Round.retained_iff (none_stray : before.stray = []) {o : Ref} :
    after.Retained o ↔ before.Retained o := by
  rw [retained_iff_of_no_stray (round.stray_eq_nil ignores valid none_stray),
    retained_iff_of_no_stray none_stray, round.reachable_eq ignores valid]

/-- A heap without garbage and without finalizers that are due, after a collection. -/
structure Clean (heap : Heap σ) : Prop where
  stray : heap.stray = []
  objects : heap.objects.toList = heap.strong
  bereft : heap.bereft = []
  baseline : heap.previousHeapSize = max heap.heapSize heap.growth.minHeapSize

theorem Round.bereft_eq_nil (none_stray : before.stray = []) : after.bereft = [] := by
  have retained {o : Ref} : after.Retained o ↔ before.Retained o :=
    round.retained_iff ignores valid none_stray
  have weakTarget {o : Ref} : after.types.weakTarget? after.memory o =
      before.types.weakTarget? swept.memory o := by
    rw [round.types, round.memory]
  rw [List.eq_nil_iff_forall_not_mem]
  intro o member
  obtain ⟨holder, kept, target, held, lost, unmarked⟩ := mem_bereft.mp member
  have holder' : o ∈ before.weakHolders.toList := by
    rw [round.after_eq] at holder
    exact ((round.reclaimed.weakHolders o).mp holder).1
  rw [weakTarget] at held
  by_cases emptied : o ∈ before.bereft
  · -- the slot was emptied, so it holds nothing now
    obtain ⟨slot, found, payload⟩ := round.reclaimed.payload_bereft o emptied
    rw [TypeTable.weakTarget?, TypeTable.weakSlot?_congr (round.reclaimed.typeId o), found,
      Option.bind_eq_bind, Option.bind_some, Memory.readRef, Memory.readWord, payload,
      Payload.readWord_writeWord_self] at held
    cases held
  · rw [TypeTable.weakTarget?_congr (round.reclaimed.typeId o)
      (round.reclaimed.payload_kept o emptied)] at held
    refine emptied (mem_bereft.mpr ⟨holder', retained.mp kept, target, held, ?_, ?_⟩)
    · exact fun reached => lost (retained.mpr reached)
    · rw [← round.reclaimed.isSurviving, ← round.memory]
      exact unmarked

theorem Round.clean (none_stray : before.stray = []) : after.Clean where
  stray := round.stray_eq_nil ignores valid none_stray
  objects := by
    classical
    rw [round.objects, round.strong_eq ignores valid, reached, strong]
    apply List.filter_congr
    intro o _
    rw [decide_eq_decide]
    exact retained_iff_of_no_stray none_stray
  bereft := round.bereft_eq_nil ignores valid none_stray
  baseline := by
    rw [round.after_eq]
    rfl

end Ignores

variable (steady : before.Steady queues)

include steady

theorem Round.steady_after : after.Steady queues where
  consistent := round.consistent steady.consistent
  traceable := by
    refine round.traceable steady.ignores steady.consistent steady.traceable ?_
    rw [round.reclaimed.host]
    exact steady.scan_releasedHost before.unreached
  idle := by
    rw [round.after_eq]
    rfl
  ignores := round.types ▸ steady.ignores
  known := by
    intro entry member
    rw [round.finalizers] at member
    exact steady.known entry (round.reclaimed.divides.kept_sublist.subset member)
  unscanned := round.scanners ▸ steady.unscanned
  callbacks := by
    intro entry member callback found during within
    rw [round.finalizers] at member
    refine steady.callbacks entry (round.reclaimed.divides.kept_sublist.subset member) callback
      found during ?_
    have spec := round.reclaimed
    rw [round.after_eq] at within
    exact
      { within with
        growth := within.growth.trans spec.growth
        types := within.types.trans spec.types
        external := within.external.trans spec.external
        roots := within.roots.trans spec.roots
        scanners := within.scanners.trans spec.scanners }

/-- Whatever is called was stray, and what was stray is called or still stray. -/
theorem Round.stray_perm : (cycle.scheduled ++ after.stray).Perm before.stray := by
  classical
  have divides := round.reclaimed.divides
  rw [← round.finalizers] at divides
  have called : cycle.scheduled.filter (fun entry => decide
      (¬ before.types.Reachable before.memory before.rootObjects entry.object)) =
        cycle.scheduled := by
    rw [List.filter_eq_self]
    exact fun entry member => decide_eq_true (divides.dead_of_scheduled member)
  -- entries are neither lost nor made, and what the roots reach is the same before and after
  have whole := divides.perm.filter fun entry => decide
    (¬ before.types.Reachable before.memory before.rootObjects entry.object)
  rw [List.filter_append, called] at whole
  rw [stray, round.reachable_eq steady.ignores steady.consistent.types_valid, stray]
  exact List.perm_append_comm.trans whole

theorem Round.length_stray : after.stray.length ≤ before.stray.length - 1 := by
  have total := (round.stray_perm steady).length_eq
  rw [List.length_append] at total
  by_cases due : before.stray = []
  · rw [due, List.length_nil] at total ⊢
    omega
  · have called := List.length_pos_of_ne_nil (round.exists_called due)
    omega

end Round

omit [RawMemory σ] in
theorem eq_of_rest {first second : Heap σ} (growth : second.growth = first.growth)
    (types : second.types = first.types) (host : second.host = first.host)
    (objects : second.objects = first.objects) (external : second.external = first.external)
    (finalizers : second.finalizers = first.finalizers)
    (weakHolders : second.weakHolders = first.weakHolders) (roots : second.roots = first.roots)
    (scanners : second.scanners = first.scanners) (heapSize : second.heapSize = first.heapSize)
    (baseline : second.previousHeapSize = first.previousHeapSize)
    (collecting : second.collecting = first.collecting) :
    second =
      { first with memory := second.memory, stats := second.stats, journal := second.journal } := by
  cases first
  cases second
  dsimp only at *
  subst_vars
  rfl

structure Settled (before after : Heap σ) : Prop where
  rest : after =
    { before with memory := after.memory, stats := after.stats, journal := after.journal }
  headerWord : ∀ o, after.memory.headerWord o = before.memory.headerWord o
  payload : ∀ o, after.memory.payload o = before.memory.payload o
  stats : after.stats =
    { before.stats with
      collections := before.stats.collections + 1
      lastMarked := after.stats.lastMarked
      lastFreed := after.stats.lastFreed
      lastFreedBytes := after.stats.lastFreedBytes }
  journal : ∃ records : List LogRecord,
    after.journal.toList = before.journal.toList ++ records.map Event.logged

section Clean

variable {heap : Heap σ}

omit [RawMemory σ] in
theorem Clean.unreached_eq_nil (clean : heap.Clean) : heap.unreached = [] := by
  rw [List.eq_nil_iff_forall_not_mem]
  intro o member
  obtain ⟨registered, lost⟩ := mem_unreached.mp member
  rw [clean.objects, mem_strong] at registered
  exact lost (registered.2.append _)

omit [RawMemory σ] in
theorem Clean.reached_eq (clean : heap.Clean) : heap.reached = heap.objects.toList := by
  classical
  rw [reached, List.filter_eq_self]
  intro o member
  rw [clean.objects, mem_strong] at member
  exact decide_eq_true (member.2.append _)

omit [RawMemory σ] in
theorem Clean.retained (clean : heap.Clean) {o : Ref} (member : o ∈ heap.live) :
    heap.Retained o := by
  rcases List.mem_append.mp member with registered | external
  · rw [clean.objects, mem_strong] at registered
    exact registered.2.append _
  · exact retained_of_external external

end Clean

theorem Round.settled_of_idle {swept : Heap σ} (clean : before.Clean)
    (consistent : before.Consistent) (idle : before.collecting = false)
    (round : before.Round cycle swept after) : before.Settled after := by
  have spec := round.reclaimed
  have none_called := spec.scheduled_eq_nil clean.stray
  have none_freed := clean.unreached_eq_nil
  obtain ⟨host, record, journal⟩ := round.quiet none_called
  have finalizers : after.finalizers = before.finalizers := by
    have all := spec.divides.perm.length_eq
    rw [none_called, List.append_nil] at all
    rw [round.finalizers, ← Array.toList_inj]
    exact spec.divides.kept_sublist.eq_of_length all
  have weakHolders : after.weakHolders = before.weakHolders := by
    -- every holder is live, so every one of them stays
    have every : before.weakHolders.toList ⊆ swept.weakHolders.toList := fun o member =>
      (spec.weakHolders o).mpr
        ⟨member, clean.retained ((consistent.weak_iff o).mp member).1⟩
    have less := (consistent.weak_nodup.subperm every).length_le
    rw [round.after_eq]
    exact Array.toList_inj.mp (spec.weakHolders_sublist.eq_of_length_le less)
  have heapSize : swept.heapSize = before.heapSize := by
    have left := spec.heapSize
    rw [none_freed] at left
    exact UInt64.toNat_inj.mp (by simpa [bytes] using left.symm)
  exact {
    rest := by
      refine eq_of_rest ?_ round.types ?_ ?_ round.external finalizers weakHolders ?_ round.scanners ?_ ?_ ?_
      · rw [round.after_eq]
        exact spec.growth
      · rw [host, spec.host, none_freed]
        rfl
      · rw [← Array.toList_inj, round.objects, clean.reached_eq]
      · rw [round.after_eq]
        exact spec.roots
      · rw [round.after_eq]
        exact heapSize
      · rw [clean.baseline, round.after_eq, concluded, heapSize, spec.growth]
      · rw [round.after_eq, idle]
        rfl
    headerWord := by
      intro o
      rw [round.memory, spec.headerWord, none_called, List.map_nil, if_neg List.not_mem_nil,
        UInt64.or_zero]
    payload := by
      intro o
      rw [round.memory]
      exact spec.payload_kept o (clean.bereft ▸ List.not_mem_nil)
    stats := by
      rw [round.stats none_called, Stats.count, spec.freed, spec.freedBytes, spec.weakrefsCleared,
        none_freed, clean.bereft]
      simp [bytes]
    journal := by
      refine ⟨[.collectionStarted before.heapSize before.objects.size,
        .markFinished before.rooted.length 0 (cycle.marked - before.rooted.length), record], ?_⟩
      rw [journal, spec.journal, none_called, none_freed]
      simp [schedulings, releasings] }

theorem Round.settled {swept : Heap σ} {queues : Array (Ref → Program σ)} (clean : before.Clean)
    (steady : before.Steady queues) (round : before.Round cycle swept after) :
    before.Settled after :=
  round.settled_of_idle clean steady.consistent steady.idle

end Heap

namespace Collector

variable {σ : Type} [RawMemory σ]

/-- What holds after some collections, if the finalizers leave the heap alone. -/
structure Progressed (start : Heap σ) (queues : Array (Ref → Program σ)) (rounds : Nat)
    (called : List FinalizerEntry) (heap : Heap σ) : Prop where
  run : Rounds ⟨start, queues⟩ rounds called ⟨heap, queues⟩
  steady : heap.Steady queues
  strong : heap.strong = start.strong
  perm : (called ++ heap.stray).Perm start.stray
  fewer : heap.stray.length ≤ start.stray.length - rounds
  clean : start.stray.length < rounds → heap.Clean

theorem Progressed.start {heap : Heap σ} {queues : Array (Ref → Program σ)}
    (steady : heap.Steady queues) : Progressed heap queues 0 [] heap where
  run := .none
  steady := steady
  strong := rfl
  perm := .refl _
  fewer := Nat.le_refl _
  clean := fun less => absurd less (Nat.not_lt_zero _)

theorem Progressed.next {start heap swept after : Heap σ} {queues : Array (Ref → Program σ)}
    {rounds : Nat} {called : List FinalizerEntry} {cycle : Cycle}
    (h : Progressed start queues rounds called heap)
    (finalizes : Finalizes ⟨heap, queues⟩ cycle.scheduled ⟨after, queues⟩)
    (round : heap.Round cycle swept after) :
    Progressed start queues (rounds + 1) (called ++ cycle.scheduled) after where
  run := h.run.more finalizes
  steady := round.steady_after h.steady
  strong := (round.strong_eq h.steady.ignores h.steady.consistent.types_valid).trans h.strong
  perm := by
    rw [List.append_assoc]
    exact ((round.stray_perm h.steady).append_left called).trans h.perm
  fewer := by
    have less := round.length_stray h.steady
    have fewer := h.fewer
    omega
  clean := by
    intro enough
    have fewer := h.fewer
    exact round.clean h.steady.ignores h.steady.consistent.types_valid
      (List.length_eq_zero_iff.mp (by omega))

theorem exists_progressed {heap : Heap σ} {queues : Array (Ref → Program σ)}
    (steady : heap.Steady queues) (rounds : Nat) :
    ∃ called after, Progressed heap queues rounds called after := by
  induction rounds with
  | zero => exact ⟨[], heap, .start steady⟩
  | succ rounds ih =>
    obtain ⟨called, middle, progressed⟩ := ih
    obtain ⟨cycle, swept, after, finalizes, round⟩ := progressed.steady.exists_round
    exact ⟨_, after, progressed.next finalizes round⟩

/-- While a finalizer is due, every collection calls one of those that are. When there have been
    more collections than finalizers were due at the start, the registry holds what the roots reach,
    the finalizers that were due have each been called once and no others have, and collections
    change nothing any more. -/
theorem collects_converge {heap : Heap σ} {queues : Array (Ref → Program σ)}
    (steady : heap.Steady queues) (rounds : Nat) :
    ∃ called after, collects rounds ⟨heap, queues⟩ = .ok () ⟨after, queues⟩ ∧
      Rounds ⟨heap, queues⟩ rounds called ⟨after, queues⟩ ∧
      ∃ more next, Finalizes ⟨after, queues⟩ more ⟨next, queues⟩ ∧
        (after.stray ≠ [] → ∃ entry ∈ more, entry ∈ after.stray ∧
          entry ∉ next.finalizers.toList) ∧
        (heap.stray.length + 1 ≤ rounds → after.objects.toList = heap.strong ∧
          called.Perm heap.stray ∧ more = [] ∧ after.Settled next) := by
  obtain ⟨called, after, progressed⟩ := exists_progressed steady rounds
  obtain ⟨cycle, swept, next, finalizes, round⟩ := progressed.steady.exists_round
  refine ⟨called, after, progressed.run.collects_eq, progressed.run, cycle.scheduled, next,
    finalizes, fun due => ?_, fun enough => ?_⟩
  · obtain ⟨entry, scheduled⟩ := List.exists_mem_of_ne_nil _ (round.exists_called due)
    refine ⟨entry, scheduled, ?_, fun kept => ?_⟩
    · exact (round.stray_perm progressed.steady).subset (List.mem_append_left _ scheduled)
    · rw [round.finalizers] at kept
      exact round.reclaimed.finalizers_disjoint progressed.steady.consistent
        (List.mem_map_of_mem kept) (List.mem_map_of_mem scheduled)
  · have clean := progressed.clean enough
    have perm := progressed.perm
    rw [clean.stray, List.append_nil] at perm
    exact ⟨clean.objects.trans progressed.strong, perm,
      round.reclaimed.scheduled_eq_nil clean.stray, round.settled clean progressed.steady⟩

end Collector

theorem TypeTable.ignoresWeakSlots_holders : holders.IgnoresWeakSlots := by
  intro typeId descriptor known
  rw [eq_of_get?_singleton known]
  refine Descriptor.ignoresWeakSlot_of_slots rfl fun slot weak offset member => ?_
  cases weak
  rw [List.mem_singleton.mp member]
  exact .inr (by decide)

/-- A rooted node with a weak slot that holds a node with a finalizer. That one and another such
    node refer to each other, and a fourth node is garbage. -/
def Heap.entwined : Heap SystemMemory where
  growth := {}
  types := .holders
  host := { used := 8 }
  memory := ((({} : Memory).writeWord .lowest 8 48).writeWord (.placed 48) 0 80).writeWord
    (.placed 80) 0 48
  objects := #[.lowest, .placed 48, .placed 80, .placed 112]
  finalizers := #[{ object := .placed 48, queue := ⟨0⟩, light := false },
    { object := .placed 80, queue := ⟨0⟩, light := true }]
  weakHolders := #[.lowest, .placed 48, .placed 80, .placed 112]
  roots := { slots := #[.occupied (some .lowest)] }
  heapSize := 96

theorem Heap.consistent_entwined : entwined.Consistent where
  types_valid := TypeTable.valid_holders
  live_nodup := by decide
  unmarked := by decide
  sized := by decide +kernel
  heapSize := by decide
  finalizers_nodup := by decide
  finalizers_mem := by decide
  finalizers_pending := by decide
  weak_nodup := by decide
  weak_iff := by
    intro o
    have every : ∀ o ∈ entwined.live, (entwined.types.weakSlot? entwined.memory o).isSome := by
      decide +kernel
    exact ⟨fun member => ⟨member, every o member⟩, And.left⟩
  roots_live := by decide

theorem Heap.traceable_entwined : entwined.Traceable where
  scanners_live := nofun
  children_live := by decide +kernel

def Program.nudge (_ : Ref) : Program SystemMemory :=
  .call .collect fun _ => .done

def Program.grab (_ : Ref) : Program SystemMemory :=
  .host (fun memory => ⟨memory.used + 1⟩) (.call .collect fun _ => .done)

theorem Heap.stray_entwined : entwined.stray = entwined.finalizers.toList := by
  classical
  rw [stray, List.filter_eq_self]
  intro entry member
  have closed : entwined.types.Closed entwined.memory [.lowest] := by
    intro o member
    cases List.mem_singleton.mp member
    exact ⟨[], by decide +kernel, nofun⟩
  have alone {o : Ref} (reached : entwined.types.Reachable entwined.memory entwined.rootObjects o) :
      o = .lowest := List.mem_singleton.mp (closed.mem_of_reachable (by decide) reached)
  have away : ∀ entry ∈ entwined.finalizers.toList, entry.object ≠ .lowest := by decide
  exact decide_eq_true fun reached => away entry member (alone reached)

theorem Heap.steady_entwined : entwined.Steady #[Program.grab] where
  consistent := consistent_entwined
  traceable := traceable_entwined
  idle := rfl
  ignores := TypeTable.ignoresWeakSlots_holders
  known := by decide
  unscanned := nofun
  callbacks := by
    intro entry member callback found during within _
    have found : callback = Program.grab := by
      have listed : entry ∈ [_, _] := member
      simp only [List.mem_cons, List.not_mem_nil, or_false] at listed
      rcases listed with rfl | rfl <;> exact (Option.some.inj found).symm
    subst found
    refine ⟨_, during.journal.push (.logged .alreadyCollecting), rfl, ?_⟩
    rw [within.scanners]
    nofun

/-- Both finalizers have taken their unit of memory, and everything but the root is gone. -/
theorem Collector.collects_converge_entwined :
    Heap.entwined.Steady #[Program.grab] ∧ Heap.entwined.stray.length + 1 ≤ 3 ∧
    ∃ called after next, Rounds ⟨.entwined, #[Program.grab]⟩ 3 called ⟨after, #[.grab]⟩ ∧
      called.Perm Heap.entwined.finalizers.toList ∧
      after.objects.toList = [.lowest] ∧ after.host.used = Heap.entwined.host.used + 2 ∧
      Finalizes ⟨after, #[Program.grab]⟩ [] ⟨next, #[.grab]⟩ ∧ after.Settled next := by
  have few : Heap.entwined.stray.length + 1 ≤ 3 := by
    rw [Heap.stray_entwined]
    decide
  obtain ⟨called, after, ran, rounds, more, next, finalizes, _, rest⟩ :=
    collects_converge Heap.steady_entwined 3
  obtain ⟨_, perm, rfl, settled⟩ := rest few
  have known : let last := final (collects 3 ⟨.entwined, #[Program.grab]⟩)
      last.heap.objects.toList = [.lowest] ∧
        last.heap.host.used = Heap.entwined.host.used + 2 := by decide +kernel
  rw [ran] at known
  rw [Heap.stray_entwined] at perm
  exact ⟨Heap.steady_entwined, few, called, after, next, rounds, perm, known.1, known.2, finalizes,
    settled⟩

end Reclaim
