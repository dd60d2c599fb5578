import Reclaim.Proofs.Cycle.Aftermath
import Reclaim.Proofs.Run.Outcomes
import Reclaim.Proofs.Run.Soundness

namespace Reclaim

variable {σ : Type} [RawMemory σ]

/-- Events that tell which calls of the raw memory lead from one state of the embedder to another,
    and with which answers. -/
inductive RawMemory.Calls : σ → List Event → σ → Prop
  | nil (host : σ) : Calls host [] host
  | requested {host middle after : σ} {size : Word} {answer : Except ChunkError Ref}
      {events : List Event} (answered : request size host = (answer, middle))
      (rest : Calls middle events after) : Calls host (.requested size answer :: events) after
  | released {host after : σ} {object : Ref} {size : Word} {events : List Event}
      (rest : Calls (release object size host) events after) :
      Calls host (.released object size :: events) after
  | logged {host after : σ} {record : LogRecord} {events : List Event}
      (rest : Calls host events after) : Calls host (.logged record :: events) after

namespace RawMemory.Calls

theorem append {first second third : σ} {events more : List Event}
    (calls : Calls first events second) (others : Calls second more third) :
    Calls first (events ++ more) third := by
  induction calls with
  | nil => exact others
  | requested answered _ ih => exact .requested answered (ih others)
  | released _ ih => exact .released (ih others)
  | logged _ ih => exact .logged (ih others)

theorem single (host : σ) (record : LogRecord) : Calls host [.logged record] host :=
  .logged (.nil host)

theorem of_logged (host : σ) (records : List LogRecord) :
    Calls host (records.map .logged) host := by
  induction records with
  | nil => exact .nil host
  | cons record rest ih => exact .logged ih

end RawMemory.Calls

namespace Heap

/-- The raw memory has been called as the journal says, and nothing else has been done to the
    embedder. -/
def Called (before after : Heap σ) : Prop :=
  ∃ events, after.journal.toList = before.journal.toList ++ events ∧
    RawMemory.Calls before.host events after.host

variable {before after : Heap σ}

theorem called_of_eq (host : after.host = before.host) (journal : after.journal = before.journal) :
    before.Called after := by
  refine ⟨[], ?_, ?_⟩
  · rw [journal, List.append_nil]
  · rw [host]
    exact .nil _

theorem called_record (heap : Heap σ) (record : LogRecord) :
    heap.Called (heap.record (.logged record)) :=
  ⟨[.logged record], Array.toList_push, .single _ record⟩

theorem calls_releasings (heap : Heap σ) (objects : List Ref) :
    RawMemory.Calls heap.host (heap.releasings objects) (heap.releasedHost objects) := by
  rw [releasedHost]
  generalize heap.host = host
  induction objects generalizing host with
  | nil => exact .nil host
  | cons object rest ih => exact .released (ih _)

theorem Cleared.called (h : before.Cleared after) : before.Called after := by
  refine ⟨_, h.journal, ?_⟩
  rw [h.host]
  exact before.calls_releasings before.live

theorem Reclaimed.called {cycle : Cycle} (h : before.Reclaimed cycle after) :
    before.Called after := by
  have marking : ∀ entries : List FinalizerEntry, schedulings entries =
      (entries.map .schedulingFinalizer).map Event.logged := fun entries => by simp [schedulings]
  refine ⟨_, h.journal, ?_⟩
  rw [h.host, marking]
  exact (RawMemory.Calls.logged ((RawMemory.Calls.of_logged _ _).append (.single _ _))).append
    (before.calls_releasings before.unreached)

theorem Granted.called {request : Request} {cost : Word} {object : Ref}
    (h : before.Granted after request cost object) : before.Called after :=
  ⟨_, h.journal, .requested h.answer (.nil _)⟩

theorem called_releasing (heap : Heap σ) (objects : List Ref) :
    heap.Called (heap.releasing objects) := by
  refine ⟨heap.releasings objects, ?_, heap.calls_releasings objects⟩
  rw [releasing, Array.toList_append, List.toList_toArray]

theorem called_of_refused {request : Request} {cost : Word} {error : AllocError}
    (run : allocateNow request cost before = .ok (.error error) after) : before.Called after := by
  obtain ⟨reason, host, _, answered, rfl⟩ := allocateNow_eq_refused run
  exact ⟨[.requested cost (.error reason)], Array.toList_push, .requested answered (.nil _)⟩

end Heap

omit [RawMemory σ] in
/-- What the step that a stage takes makes of the embedder's state without the raw memory. -/
def Stage.own : Stage σ → σ → σ
  | .code _ (.run (.host update _)) => update
  | _ => id

/-- Between two points the raw memory is called as the events say, and nothing else is done to the
    embedder's state but by its own code. -/
def Point.Calls (point : Point σ) (events : List Event) (next : Point σ) : Prop :=
  ∃ host, RawMemory.Calls point.collector.heap.host events host ∧
    next.collector.heap.host = point.stage.own host

/-- A run with the calls of the raw memory that its steps make. -/
inductive Calling (first : Point σ) : List Event → Point σ → Prop
  | start : Calling first [] first
  | step {point next : Point σ} {events new : List Event} (run : Calling first events point)
      (step : Step point next) (calls : point.Calls new next) : Calling first (events ++ new) next

theorem Heap.Called.calls {point next : Point σ}
    (called : point.collector.heap.Called next.collector.heap) (quiet : point.stage.own = id) :
    ∃ events, next.collector.heap.journal.toList =
      point.collector.heap.journal.toList ++ events ∧ point.Calls events next := by
  obtain ⟨events, journal, calls⟩ := called
  refine ⟨events, journal, _, calls, ?_⟩
  rw [quiet, id]

/-- The journal grows by the calls that a step makes. -/
theorem Step.calls {point next : Point σ} (step : Step point next) (sound : Sound point)
    (lawful : point.Lawful) : ∃ events, next.collector.heap.journal.toList =
      point.collector.heap.journal.toList ++ events ∧ point.Calls events next := by
  cases step with
  | code step place history =>
    cases step with
    | host update next => exact ⟨[], (List.append_nil _).symm, _, .nil _, rfl⟩
    | operate plain performed next =>
      refine Heap.Called.calls ?_ rfl
      rcases Collector.apply_eq_ok plain performed with ⟨rfl, reset⟩ | ⟨_, roots, memory, rfl⟩
      · obtain ⟨run, _⟩ := Collector.onHeap_eq_ok reset
        exact (Heap.cleared_of_reset sound.consistent.sized run).called
      · exact Heap.called_of_eq rfl rfl
    | @allocate request cost answer heap answered next =>
      refine Heap.Called.calls ?_ rfl
      cases answer with
      | error error => exact Heap.called_of_refused answered
      | ok object => exact (Heap.granted_of_allocateNow answered).called
    | exceed => exact (Heap.called_record _ _).calls rfl
    | inspect | collect | refuse | accept | addQueue | addScanner | poke =>
      exact Heap.Called.calls (Heap.called_of_eq rfl rfl) rfl
  | nested => exact (Heap.called_record _ _).calls rfl
  | reclaim idle reclaimed next history =>
    exact (Heap.reclaimed_of_ok sound.consistent (lawful idle) reclaimed).called.calls rfl
  | call => exact (Heap.called_record _ _).calls rfl
  | «return» => exact (Heap.called_of_eq rfl rfl).calls rfl
  | finish finished caller history =>
    cases finished
    exact (Heap.called_record _ _).calls rfl

theorem Runs.calling {first point : Point σ} (sound : Sound first)
    (journal : first.collector.heap.journal = #[]) (run : Runs Point.Lawful first point) :
    Calling first point.collector.heap.journal.toList point := by
  induction run with
  | refl =>
    rw [journal]
    exact .start
  | tail reached step ih =>
    obtain ⟨events, journal, calls⟩ := step.2.calls (sound.of_runs reached) step.1
    rw [journal]
    exact .step ih step.2 calls

end Reclaim
