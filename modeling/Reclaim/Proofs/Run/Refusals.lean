import Reclaim.Proofs.Heap.Requests
import Reclaim.Proofs.Run.HeapSize
import Reclaim.Proofs.Run.Outcomes

namespace Reclaim

variable {σ : Type}

theorem Request.accept_ne_allocationFailed {request : Request} {types : TypeTable} {queues : Nat}
    {error : AllocError} (refused : request.accept types queues = .error error)
    (reason : ChunkError) : error ≠ .allocationFailed reason := by
  have judged := request.judged types queues
  rw [refused] at judged
  cases judged <;> exact nofun

variable [RawMemory σ]

namespace Collector

inductive Collected (before : Collector σ) : Collector σ → Prop
  | intro {cycle : Cycle} {swept heap : Heap σ} {finalized : Collector σ}
      (idle : before.heap.collecting = false)
      (reclaimed : Heap.reclaim before.heap = .ok cycle swept)
      (called : cycle.scheduled.forM runFinalizer { before with heap := swept } = .ok () finalized)
      (finished : Heap.finish cycle finalized.heap = .ok () heap)
      (silent : swept.asked = before.heap.asked)
      (silent_end : heap.asked = finalized.heap.asked) :
      Collected before { finalized with heap }

/-- What there is when an admitted request is carried out: the heap as it was, or as the collection
    has left it that the growth policy asked for. -/
inductive Prepared (request : Request) (cost : Word) (before : Collector σ) : Collector σ → Prop
  | directly (small : ¬ (¬ request.isExternal ∧ before.heap.exceedsThreshold cost)) :
      Prepared request cost before before
  | guarded (large : ¬ request.isExternal ∧ before.heap.exceedsThreshold cost)
      (busy : before.heap.collecting = true) :
      Prepared request cost before { before with
        heap := (before.heap.announced cost).record (.logged .alreadyCollecting) }
  | collected {after : Collector σ}
      (large : ¬ request.isExternal ∧ before.heap.exceedsThreshold cost)
      (collected : Collected { before with heap := before.heap.announced cost } after) :
      Prepared request cost before after

theorem collected_of_ok {before after : Collector σ} (idle : before.heap.collecting = false)
    (run : collect before = .ok () after) : Collected before after := by
  have open_guard : ¬ before.heap.collecting = true := by simp [idle]
  rw [collect, get_bind, if_neg open_guard] at run
  obtain ⟨cycle, swept, reclaimed, run⟩ := bind_eq_ok.mp run
  obtain ⟨_, finalized, called, run⟩ := bind_eq_ok.mp run
  obtain ⟨reclaimed, queues⟩ := onHeap_eq_ok reclaimed
  obtain ⟨finished, kept⟩ := onHeap_eq_ok run
  obtain ⟨heap, _⟩ := swept
  obtain ⟨ended, _⟩ := after
  cases queues
  cases kept
  exact .intro idle reclaimed called finished (Heap.keeps_asked_reclaim reclaimed)
    (Heap.keeps_asked_finish cycle finished)

theorem allocate_eq_ok {request : Request} {before after : Collector σ}
    {answer : Except AllocError Ref} (run : allocate collect request before = .ok answer after) :
    (∃ error, request.accept before.heap.types before.queues.size = .error error ∧
        answer = .error error ∧ after = before) ∨
      ∃ cost middle, request.accept before.heap.types before.queues.size = .ok cost ∧
        Prepared request cost before middle ∧
        onHeap (Heap.allocateNow request cost) middle = .ok answer after := by
  cases accepted : request.accept before.heap.types before.queues.size with
  | error error =>
    rw [allocate, get_bind] at run
    simp only [accepted] at run
    cases run
    exact .inl ⟨error, rfl, rfl, rfl⟩
  | ok cost =>
    right
    by_cases large : ¬ request.isExternal ∧ before.heap.exceedsThreshold cost
    · rw [allocate_of_exceed collect accepted large] at run
      obtain ⟨_, middle, collected, run⟩ := bind_eq_ok.mp run
      refine ⟨cost, middle, rfl, ?_, run⟩
      cases busy : before.heap.collecting with
      | true =>
        have swallowed := collect_announced_of_busy busy cost
        rw [Heap.announced] at swallowed
        rw [swallowed] at collected
        cases collected
        exact .guarded large busy
      | false => exact .collected large (collected_of_ok busy collected)
    · rw [allocate_of_accept collect accepted large] at run
      exact ⟨cost, before, rfl, .directly large, run⟩

theorem Prepared.asked {request : Request} {cost : Word} {before middle : Collector σ}
    (prepared : Prepared request cost before middle)
    (none_ran : before.heap.collecting = true ∨
      ¬ (¬ request.isExternal ∧ before.heap.exceedsThreshold cost)) :
    middle.heap.asked = before.heap.asked := by
  cases prepared with
  | directly small => rfl
  | guarded large busy =>
    exact (Heap.asked_record_of_none rfl _).trans (Heap.asked_record_of_none rfl _)
  | collected large collected =>
    rcases none_ran with busy | small
    · obtain ⟨idle, _⟩ := collected
      exact absurd (idle.symm.trans busy) Bool.false_ne_true
    · exact absurd large small

theorem refused_of_accept {request : Request} {before after : Collector σ} {error : AllocError}
    (refused : allocate collect request before = .ok (.error error) after) :
    (∃ reason, error = .allocationFailed reason ∧ ∃ cost middle host,
      request.cost? = some cost ∧ Prepared request cost before middle ∧
      RawMemory.request cost middle.heap.host = (.error reason, host) ∧
      after = { middle with
        heap := { middle.heap with host }.record (.requested cost (.error reason)) }) ∨
      ((∀ reason, error ≠ .allocationFailed reason) ∧ after = before) := by
  rcases allocate_eq_ok refused with
    ⟨found, unfit, same, rfl⟩ | ⟨cost, middle, accepted, prepared, run⟩
  · cases same
    exact .inr ⟨Request.accept_ne_allocationFailed unfit, rfl⟩
  · left
    obtain ⟨descriptor, admitted⟩ := Request.exists_admitted accepted
    obtain ⟨run, queues⟩ := onHeap_eq_ok run
    obtain ⟨reason, host, rfl, answer, same⟩ := Heap.allocateNow_eq_refused run
    refine ⟨reason, rfl, cost, middle, host, admitted.cost?_eq, prepared, answer, ?_⟩
    cases after
    cases queues
    cases same
    rfl

/-- An allocation that does not take place. A request that is not admitted leaves everything as it
    was. If the raw memory fails a request, then it was asked by the request itself, once and for
    what the request costs, and but for the record of that everything is as the collection left it
    that the growth policy asked for, or as it was if none ran: a collection that was running
    already swallows it, and external objects never ask for one. Callbacks meet the same. -/
theorem allocate_atomic {request : Request} {before after : Collector σ} {error : AllocError}
    (refused : apply (.allocate request) before = .ok (.error error) after) :
    (match error with
      | .allocationFailed reason => ∃ cost middle host, request.cost? = some cost ∧
          Prepared request cost before middle ∧
          RawMemory.request cost middle.heap.host = (.error reason, host) ∧
          after = { middle with
            heap := { middle.heap with host }.record (.requested cost (.error reason)) } ∧
          after.heap.asked = middle.heap.asked ++ [cost] ∧
          (before.heap.collecting = true ∨
              ¬ (¬ request.isExternal ∧ before.heap.exceedsThreshold cost) →
            middle.heap.asked = before.heap.asked)
      | _ => after = before) ∧
    (before.heap.collecting = true →
      perform collectWithin (.allocate request) before = .ok (.error error) after) := by
  refine ⟨?_, fun busy => (perform_within busy _).trans refused⟩
  rcases refused_of_accept refused with
    ⟨reason, rfl, cost, middle, host, price, prepared, answer, rfl⟩ | ⟨unfit, rfl⟩
  · exact ⟨cost, middle, host, price, prepared, answer, rfl, Heap.asked_record _ _, prepared.asked⟩
  · cases error with
    | allocationFailed reason => exact absurd rfl (unfit reason)
    | outOfMemory | unknownType | layoutMismatch | unknownQueue => rfl

end Collector

def Request.vast : Request :=
  .varsize ⟨0⟩ 0x100000000000 8 8 0

theorem Collector.allocate_atomic_vast :
    ∃ after, apply (.allocate .vast) { heap := Heap.noRow } =
      .ok (.error (.allocationFailed .outOfMemory)) after ∧ after.heap.stats.collections = 1 ∧
    ∃ cost middle host, Request.vast.cost? = some cost ∧
      Prepared .vast cost { heap := .noRow } middle ∧
      RawMemory.request cost middle.heap.host = (.error .outOfMemory, host) ∧
      after = { middle with
        heap := { middle.heap with host }.record (.requested cost (.error .outOfMemory)) } ∧
      after.heap.asked = middle.heap.asked ++ [cost] := by
  have refused : ∃ after, apply (.allocate .vast) { heap := Heap.noRow } =
      .ok (.error (.allocationFailed .outOfMemory)) after ∧ after.heap.stats.collections = 1 :=
    ⟨_, rfl, rfl⟩
  obtain ⟨after, refused, collections⟩ := refused
  obtain ⟨cost, middle, host, price, prepared, answer, same, asked, _⟩ := (allocate_atomic refused).1
  exact ⟨after, refused, collections, cost, middle, host, price, prepared, answer, same, asked⟩

end Reclaim
