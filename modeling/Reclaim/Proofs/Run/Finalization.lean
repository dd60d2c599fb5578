import Reclaim.Proofs.Run.Agreement
import Reclaim.Proofs.Run.References

namespace Reclaim

variable {σ : Type}

/-- What has happened at each address makes up lives, and the point bears out the last of them. -/
def Told (point : Point σ) : Prop :=
  ∀ o, ∃ life, Life.Moves o .absent (Happening.own o point.history) life ∧
    Life.Agrees point.collector point.stage o life

theorem Told.extend {point : Point σ} (told : Told point) {collector : Collector σ}
    {stage : Stage σ} {new : List (Happening σ)}
    (step : ∀ o life, Life.Agrees point.collector point.stage o life →
      ∃ later, Life.Moves o life (Happening.own o new) later ∧
        Life.Agrees collector stage o later) :
    Told ⟨collector, stage, point.history ++ new⟩ := by
  intro o
  obtain ⟨life, moves, agrees⟩ := told o
  obtain ⟨later, goes_on, agrees⟩ := step o life agrees
  refine ⟨later, ?_, agrees⟩
  rw [Happening.own_append]
  exact Life.moves_append.mpr ⟨life, moves, goes_on⟩

theorem Told.of_aside {point : Point σ} (told : Told point) {heap : Heap σ} {stage : Stage σ}
    (h : point.collector.heap.Aside heap) (waiting : stage.waiting = point.stage.waiting)
    (running : stage.running = point.stage.running) :
    Told ⟨{ point.collector with heap }, stage, point.history⟩ := by
  intro o
  obtain ⟨life, moves, agrees⟩ := told o
  refine ⟨life, moves, agrees.frame ?_ ?_ waiting running ?_ ⟨[], (List.append_nil _).symm⟩⟩
  · rw [h.live_eq]
  · rw [h.finalizers]
  · intro _
    rw [h.memory]

variable [RawMemory σ]

theorem Told.step {point next : Point σ} (told : Told point) (sound : Sound point)
    (lawful : point.Lawful) (step : Step point next) : Told next := by
  cases step with
  | @code before after code rest new step place history =>
    have member : code ∈ (Stage.code place code).codes := by
      cases place <;> exact List.mem_cons_self
    obtain ⟨effect, _⟩ := step.effect sound.consistent lawful (sound.pending code member)
    refine told.extend ?_
    intro o life agrees
    exact agrees.code effect sound.consistent sound.accounted sound.collecting step.queues
  | @nested collector place busy next history =>
    refine told.of_aside (Heap.aside_record _ _) ?_ ?_ <;> cases place <;> rfl
  | @reclaim collector cycle heap idle reclaimed next history =>
    have h := Heap.reclaimed_of_ok sound.consistent (lawful idle) reclaimed
    refine told.extend ?_
    intro o life agrees
    exact agrees.reclaimed sound.consistent h
  | call found cycle waiting caller history =>
    refine told.extend ?_
    intro o life agrees
    exact agrees.called found
  | «return» collector entry collection history =>
    refine told.extend ?_
    intro o life agrees
    exact agrees.returned
  | finish finished caller history =>
    exact told.of_aside (Heap.finish_eq_ok finished).1 rfl rfl

omit [RawMemory σ] in
theorem Told.start (types : TypeTable) (growth : Growth) (host : σ) (program : Program σ) :
    Told (.start { heap := { growth, types, host } } program) := by
  intro o
  refine ⟨.absent, .nil _, ?_⟩
  exact {
    live := iff_of_false List.not_mem_nil (by simp)
    registered := rfl
    waiting := rfl
    running := rfl
    flagged := fun member => nomatch member
    callback := by
      intro progress entry callback same
      cases same }

theorem Told.of_runs {point last : Point σ} (told : Told point) (sound : Sound point)
    (run : Runs Point.Lawful point last) : Told last := by
  induction run with
  | refl => exact told
  | tail run step ih => exact ih.step (sound.of_runs run) step.1 step.2

/-- Whether the registry and the flag of a live object are what they should be: without a finalizer
    it has neither, and with one it has either its entry or the flag. -/
def Heap.Accounts (heap : Heap σ) (o : Ref) (request : Request) : Prop :=
  match request.finalizer with
  | none => o.entriesIn heap.finalizers.toList = [] ∧
    (heap.memory.flags o).contains .finalizerReachable = false
  | some finalizer =>
    (o.entriesIn heap.finalizers.toList = [⟨o, finalizer.queue, finalizer.light⟩] ∧
        (heap.memory.flags o).contains .finalizerReachable = false) ∨
      (o.entriesIn heap.finalizers.toList = [] ∧
        (heap.memory.flags o).contains .finalizerReachable = true)

omit [RawMemory σ] in
theorem Life.Agrees.accounts {collector : Collector σ} {stage : Stage σ} {o : Ref} {life : Life σ}
    (agrees : Agrees collector stage o life) (live : o ∈ collector.heap.live) {request : Request}
    {given : Option (Ref → Program σ)} (suits : life.Suits o request given) :
    collector.heap.Accounts o request := by
  have registered := agrees.registered
  have flagged := agrees.flagged live
  cases life with
  | absent => exact suits.elim
  | plain =>
    rw [Heap.Accounts, show request.finalizer = none from suits]
    exact ⟨registered, flagged⟩
  | finalizable progress entry callback =>
    obtain ⟨finalizer, wanted, rfl, _⟩ := suits
    rw [Heap.Accounts, wanted]
    -- the entry goes when the flag comes, which is when the finalizer is scheduled
    cases progress with
    | pending => exact .inl ⟨registered, flagged⟩
    | due => exact .inr ⟨registered, flagged⟩
    | running => exact .inr ⟨registered, flagged⟩
    | finished => exact .inr ⟨registered, flagged⟩

/-- At every point of a run that keeps the contract: whatever happened to an object after it was
    allocated, until its address was handed out again, makes up one of the courses of a life; and
    every live object was allocated, has not been freed or dropped since, and has a registered
    finalizer or the flag as that allocation asked for. -/
theorem Runs.finalized_once {types : TypeTable} (valid : types.Valid) (growth : Growth) (host : σ)
    (program : Program σ) {point : Point σ}
    (run : Runs Point.Lawful (.start { heap := { growth, types, host } } program) point) (o : Ref) :
    (∀ past request given later rest,
      Happening.own o point.history = past ++ .allocated o request given :: (later ++ rest) →
        (∀ happening ∈ later, happening.isAllocation = false) →
          Life.Course o request given later) ∧
    (o ∈ point.collector.heap.live → ∃ past request given later,
      Happening.own o point.history = past ++ .allocated o request given :: later ∧
        (∀ happening ∈ later, happening.isBoundary = false) ∧
        point.collector.heap.Accounts o request) := by
  have sound := Sound.start valid growth host program
  obtain ⟨life, moves, agrees⟩ := (Told.start types growth host program).of_runs sound run o
  constructor
  · intro past request given later rest same fresh
    rw [same] at moves
    exact moves.course fresh
  · intro live
    obtain ⟨past, request, given, later, same, quiet, suits⟩ :=
      moves.exists_birth (agrees.live.mp live)
    exact ⟨past, request, given, later, same, quiet, agrees.accounts live suits⟩

theorem Runs.accepted {contract : Point σ → Prop} {first : Point σ} {collector : Collector σ}
    {place : Place σ} {request : Request} {cost : Word} {next : Except AllocError Ref → Program σ}
    {history : List (Happening σ)}
    (run : Runs contract first
      ⟨collector, .code place (.run (.call (.allocate request) next)), history⟩)
    (kept : contract ⟨collector, .code place (.run (.call (.allocate request) next)), history⟩)
    (accepted : request.accept collector.heap.types collector.queues.size = .ok cost) :
    Runs contract first ⟨collector, .code place (.allocate request cost next), history ++ []⟩ ∨
      ∃ record, Runs contract first
        ⟨{ collector with heap := collector.heap.record (.logged record) },
          .code place (.collect (.allocate request cost next)), history ++ []⟩ := by
  by_cases large : ¬ request.isExternal ∧ collector.heap.exceedsThreshold cost
  · exact .inr ⟨_, run.code kept (.exceed accepted large next)⟩
  · exact .inl (run.code kept (.accept accepted large next))

theorem Runs.collected {first : Point σ} {collector : Collector σ}
    {next : Code σ} {history : List (Happening σ)} {cycle : Cycle} {swept after : Heap σ}
    (run : Runs Point.Lawful first ⟨collector, .code .outside (.collect next), history⟩)
    (idle : collector.heap.collecting = false) (traceable : collector.heap.Traceable)
    (reclaimed : Heap.reclaim collector.heap = .ok cycle swept) (none_due : cycle.scheduled = [])
    (finished : Heap.finish cycle swept = .ok () after) :
    Runs Point.Lawful first ⟨{ collector with heap := after }, .code .outside next,
      history ++ Happening.ofCycle collector.heap cycle swept⟩ := by
  have reached := run.tail ⟨fun _ => traceable, .reclaim idle reclaimed next history⟩
  rw [none_due] at reached
  exact reached.tail ⟨trivial, .finish finished next _⟩

def Program.farewell (_ : Ref) : Program SystemMemory :=
  .done

def Request.parting : Request :=
  .fixed ⟨0⟩ 8 (some ⟨⟨0⟩, false⟩) false

def Program.parting : Program SystemMemory :=
  .addQueue farewell fun _ => .call (.allocate .parting) fun _ => .call .collect fun _ => .done

def Heap.vacant (baseline : Word) (stats : Stats) (journal : Array Event) : Heap SystemMemory :=
  { growth := {}, types := .nodes, host := {}, previousHeapSize := baseline, stats, journal }

def Heap.parting (baseline : Word) (stats : Stats) (journal : Array Event) : Heap SystemMemory :=
  (vacant baseline stats journal).afterwards (allocateNow .parting 16)

theorem Heap.reclaim_vacant (baseline : Word) (stats : Stats) (journal : Array Event) :
    ∃ cycle after, reclaim (vacant baseline stats journal) = .ok cycle after ∧
      cycle.scheduled = [] ∧ ∃ baseline stats journal,
        finish cycle after = .ok () (vacant baseline stats journal) :=
  ⟨_, _, rfl, rfl, _, _, _, rfl⟩

theorem Program.begins_parting : ∃ baseline stats journal,
    Runs Point.Lawful (.start { heap := .noNode } parting)
      ⟨⟨.vacant baseline stats journal, #[farewell]⟩,
        .code .outside (.allocate .parting 16 fun _ => .call .collect fun _ => .done), []⟩ := by
  have start : Runs Point.Lawful (.start { heap := Heap.noNode } parting)
      (.start { heap := .noNode } parting) := .refl
  have added := start.code trivial (.addQueue _ farewell _)
  have accepted : Request.parting.accept Heap.noNode.types 1 = .ok 16 := rfl
  rcases added.accepted nofun accepted with small | ⟨record, large⟩
  · exact ⟨_, _, _, small⟩
  · obtain ⟨cycle, swept, reclaimed, none_due, baseline, stats, journal, finished⟩ :=
      Heap.reclaim_vacant Heap.noNode.previousHeapSize {} #[.logged record]
    have idled := large.collected rfl ⟨nofun, nofun⟩ reclaimed none_due finished
    rw [Happening.ofCycle, none_due] at idled
    exact ⟨baseline, stats, journal, idled⟩

theorem Program.makes_parting : ∃ baseline stats journal,
    Runs Point.Lawful (.start { heap := .noNode } parting)
      ⟨⟨.parting baseline stats journal, #[farewell]⟩,
        .code .outside (.run (.call .collect fun _ => .done)),
        [.allocated .lowest .parting (some farewell)]⟩ := by
  obtain ⟨baseline, stats, journal, run⟩ := begins_parting
  have accounted :=
    ((Sound.start TypeTable.valid_nodes {} ({} : SystemMemory) parting).of_runs run).accounted
  have granted : RawMemory.request 16 (Heap.vacant baseline stats journal).host =
      (.ok .lowest, ⟨1⟩) := rfl
  have allocated : Heap.allocateNow .parting 16 (.vacant baseline stats journal) =
      .ok (.ok .lowest) (.parting baseline stats journal) := rfl
  have fits : Code.Lawful (Heap.vacant baseline stats journal)
      (.allocate .parting 16 fun _ => .call .collect fun _ => .done) := by
    intro object host answer
    rw [granted] at answer
    cases answer
    refine ⟨by decide, ?_⟩
    intro block held
    exact nomatch accounted.live_of_held held
  have made := run.code fits (.allocate allocated _)
  exact ⟨baseline, stats, journal, made⟩

theorem Heap.traceable_parting (baseline : Word) (stats : Stats) (journal : Array Event) :
    (parting baseline stats journal).Traceable where
  scanners_live := nofun
  children_live := by
    intro o member
    have listed : o ∈ [.lowest] := member
    have same : (parting baseline stats journal).memory = (parting 0 {} #[]).memory := rfl
    rw [List.mem_singleton.mp listed, same]
    exact ⟨[], rfl, nofun⟩

theorem Heap.Reclaimed.parting {baseline : Word} {stats : Stats} {journal : Array Event}
    {cycle : Cycle} {after : Heap SystemMemory}
    (h : (Heap.parting baseline stats journal).Reclaimed cycle after) :
    cycle.scheduled = [⟨.lowest, ⟨0⟩, false⟩] ∧ .lowest ∈ after.objects.toList := by
  have divides : Divides (TypeTable.Reachable .nodes (Heap.parting baseline stats journal).memory)
      [] [⟨.lowest, ⟨0⟩, false⟩] after.finalizers.toList cycle.scheduled := h.divides
  constructor
  · generalize after.finalizers.toList = kept at divides
    generalize cycle.scheduled = scheduled at divides
    cases divides with
    | keep alive more => exact absurd alive TypeTable.not_reachable_nil
    | schedule dead more =>
      cases more
      rfl
  · have registered : (Heap.parting baseline stats journal).objects.toList = [.lowest] := rfl
    have pending : (Heap.parting baseline stats journal).finalizerObjects = [.lowest] := rfl
    refine h.mem_objects.mpr ⟨?_, Heap.retained_of_finalizer ?_⟩
    · rw [registered]
      exact List.mem_cons_self
    · rw [pending]
      exact List.mem_cons_self

theorem Program.returns_parting : ∃ (collector : Collector SystemMemory) (cycle : Cycle)
    (entry : FinalizerEntry),
    Runs Point.Lawful (.start { heap := .noNode } parting)
        ⟨collector, .between ⟨cycle, [], .run .done⟩,
          [.allocated .lowest .parting (some farewell), .scheduled entry,
            .called entry farewell, .returned entry]⟩ ∧
      .lowest ∈ collector.heap.objects.toList := by
  obtain ⟨baseline, stats, journal, made⟩ := makes_parting
  have start := Sound.start TypeTable.valid_nodes {} ({} : SystemMemory) parting
  have asked := made.code nofun (.collect _ _)
  have sound := start.of_runs asked
  have traceable := Heap.traceable_parting baseline stats journal
  obtain ⟨cycle, after, reclaimed, spec⟩ := Heap.exists_reclaimed sound.consistent traceable
  obtain ⟨scheduled, kept⟩ := spec.parting
  have swept := asked.tail ⟨fun _ => traceable, .reclaim rfl reclaimed _ _⟩
  rw [Happening.ofCycle, scheduled] at swept
  have called := swept.tail ⟨trivial, .call rfl _ _ _ _⟩
  have returned := called.tail ⟨trivial, .return _ _ _ _⟩
  have unfreed : (Heap.parting baseline stats journal).objects.toList.filter
      (· ∉ after.objects.toList) = [] := by
    refine List.filter_eq_nil_iff.mpr ?_
    intro o member
    have listed : o ∈ [.lowest] := member
    rw [List.mem_singleton.mp listed]
    simpa using kept
  rw [unfreed] at returned
  exact ⟨_, cycle, ⟨.lowest, ⟨0⟩, false⟩, returned, kept⟩

theorem Program.runs_parting : ∃ (point : Point SystemMemory) (entry : FinalizerEntry),
    Runs Point.Lawful (.start { heap := .noNode } parting) point ∧
      .lowest ∈ point.collector.heap.live ∧
      point.history = [.allocated .lowest .parting (some farewell), .scheduled entry,
        .called entry farewell, .returned entry] := by
  obtain ⟨collector, cycle, entry, run, registered⟩ := returns_parting
  exact ⟨_, entry, run, Heap.mem_live_of_objects registered, rfl⟩

theorem Runs.finalized_once_farewell : ∃ (point : Point SystemMemory) (entry : FinalizerEntry),
    .lowest ∈ point.collector.heap.live ∧
    point.history = [.allocated .lowest .parting (some Program.farewell), .scheduled entry,
      .called entry Program.farewell, .returned entry] ∧
    (∀ past request given later rest,
      Happening.own .lowest point.history =
          past ++ .allocated .lowest request given :: (later ++ rest) →
        (∀ happening ∈ later, happening.isAllocation = false) →
          Life.Course .lowest request given later) ∧
    (.lowest ∈ point.collector.heap.live → ∃ past request given later,
      Happening.own .lowest point.history =
          past ++ .allocated .lowest request given :: later ∧
        (∀ happening ∈ later, happening.isBoundary = false) ∧
        point.collector.heap.Accounts .lowest request) := by
  obtain ⟨point, entry, run, live, history⟩ := Program.runs_parting
  have once := Runs.finalized_once TypeTable.valid_nodes {} ({} : SystemMemory) .parting run .lowest
  exact ⟨point, entry, live, history, once⟩

end Reclaim
