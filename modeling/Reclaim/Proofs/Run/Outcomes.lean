import Reclaim.Proofs.Run.Adequacy
import Reclaim.Proofs.Run.Contract

namespace Reclaim

variable {σ : Type}

namespace Heap

variable {heap after : Heap σ}

theorem setRoot_eq_ok {id : RootId} {target : Option Ref}
    (run : setRoot id target heap = .ok () after) : ∃ roots, after = { heap with roots } := by
  rw [setRoot, bind_eq_ok] at run
  obtain ⟨roots, _, checked, run⟩ := run
  obtain ⟨_, rfl⟩ := check_eq_ok.mp checked
  cases run
  exact ⟨roots, rfl⟩

theorem removeRoot_eq_ok {id : RootId} (run : removeRoot id heap = .ok () after) :
    ∃ roots, after = { heap with roots } := by
  rw [removeRoot, bind_eq_ok] at run
  obtain ⟨roots, _, checked, run⟩ := run
  obtain ⟨_, rfl⟩ := check_eq_ok.mp checked
  cases run
  exact ⟨roots, rfl⟩

theorem writeWord_eq_ok {object : Ref} {offset word : Word}
    (run : writeWord object offset word heap = .ok () after) :
    ∃ memory, after = { heap with memory } := by
  rw [writeWord, bind_eq_ok] at run
  obtain ⟨_, _, checked, run⟩ := run
  obtain ⟨_, rfl⟩ := check_eq_ok.mp checked
  cases run
  exact ⟨_, rfl⟩

theorem writePayload_eq_ok {object : Ref} {offset length : Word} {bytes : List UInt8}
    (run : writePayload object offset bytes heap = .ok length after) :
    ∃ memory, after = { heap with memory } := by
  rw [writePayload, bind_eq_ok] at run
  obtain ⟨_, _, checked, run⟩ := run
  obtain ⟨_, rfl⟩ := check_eq_ok.mp checked
  cases run
  exact ⟨_, rfl⟩

variable [RawMemory σ]

theorem stats_of_reset (run : reset heap = .ok () after) : after.stats = {} := by
  rw [reset, get_bind] at run
  split at run
  · cases run
  · obtain ⟨_, emptied, _, run⟩ := bind_eq_ok.mp run
    cases run
    rfl

theorem reset_of_busy (busy : heap.collecting = true) :
    reset heap = .error .resetDuringCollection heap := by
  rw [reset, get_bind, if_pos busy]
  rfl

theorem allocateNow_eq_refused {request : Request} {cost : Word} {error : AllocError}
    (run : allocateNow request cost heap = .ok (.error error) after) :
    ∃ reason host, error = .allocationFailed reason ∧
      RawMemory.request cost heap.host = (.error reason, host) ∧
      after = { heap with host }.record (.requested cost (.error reason)) := by
  rw [allocateNow, bind_eq_ok] at run
  obtain ⟨answered, middle, requested, run⟩ := run
  cases answered with
  | ok object =>
    simp only [bind_eq_ok] at run
    obtain ⟨_, _, _, _, _, _, run⟩ := run
    cases run
  | error reason =>
    cases run
    rw [Heap.request, modifyGet_apply] at requested
    cases answer : RawMemory.request cost heap.host with
    | mk granted host =>
      rw [answer] at requested
      cases granted with
      | ok object => cases requested
      | error found =>
        cases requested
        exact ⟨reason, host, rfl, rfl, rfl⟩

section Journal

omit [RawMemory σ] in
theorem furnish_journal (request : Request) (object : Ref) (heap : Heap σ) (journal : Array Event) :
    furnish request object { heap with journal } = { furnish request object heap with journal } := by
  rw [furnish_eq, furnish_eq]

omit [RawMemory σ] in
theorem enter_journal {request : Request} {cost : Word} {object : Ref}
    (run : enter request cost object heap = .ok () after) (journal : Array Event) :
    enter request cost object { heap with journal } = .ok () { after with journal } := by
  rw [enter] at run ⊢
  cases external : request.isExternal with
  | true =>
    simp only [external, if_true] at run ⊢
    cases run
    rfl
  | false =>
    simp only [external, Bool.false_eq_true, if_false, modify_bind, bind_eq_ok] at run ⊢
    obtain ⟨size, _, checked, run⟩ := run
    obtain ⟨sum, rfl⟩ := check_eq_ok.mp checked
    cases run
    exact ⟨size, _, check_of_ok sum, rfl⟩

theorem request_journal {cost : Word} {answer : Except ChunkError Ref}
    (run : Heap.request cost heap = .ok answer after) (journal : Array Event) :
    ∃ written, Heap.request cost { heap with journal } =
      .ok answer { after with journal := written } := by
  rw [Heap.request, modifyGet_apply] at run
  simp only [Heap.request, modifyGet_apply]
  cases asked : RawMemory.request cost heap.host with
  | mk found host =>
    rw [asked] at run
    cases found <;> cases run <;> exact ⟨_, rfl⟩

theorem allocateNow_journal {request : Request} {cost : Word}
    {answer : Except AllocError Ref} (run : allocateNow request cost heap = .ok answer after)
    (journal : Array Event) :
    ∃ written, allocateNow request cost { heap with journal } =
      .ok answer { after with journal := written } := by
  rw [allocateNow, bind_eq_ok] at run
  obtain ⟨answered, middle, requested, run⟩ := run
  obtain ⟨written, again⟩ := request_journal requested journal
  refine ⟨written, ?_⟩
  rw [allocateNow, bind_of_ok again]
  cases answered with
  | error reason =>
    cases run
    rfl
  | ok object =>
    simp only [bind_eq_ok] at run
    obtain ⟨_, entered, entering, _, _, furnishing, run⟩ := run
    cases run
    cases furnishing
    dsimp only
    rw [bind_of_ok (enter_journal entering written), modify_bind, furnish_journal, pure_apply]

end Journal

end Heap

variable [RawMemory σ]

theorem Collector.apply_eq_ok {before after : Collector σ} {operation : Operation}
    {answer : operation.Answer} (plain : operation.isPlain = true)
    (performed : apply operation before = .ok answer after) :
    (operation = .reset ∧ onHeap Heap.reset before = .ok () after) ∨
      (operation ≠ .reset ∧
        ∃ roots memory, after = { before with heap := { before.heap with roots, memory } }) := by
  have settled {α : Type} {action : HeapM σ α} {value : α}
      (run : onHeap action before = .ok value after)
      (spec : ∀ heap, action before.heap = .ok value heap →
        ∃ roots memory, heap = { before.heap with roots, memory }) :
      ∃ roots memory, after = { before with heap := { before.heap with roots, memory } } := by
    obtain ⟨ran, queues⟩ := onHeap_eq_ok run
    obtain ⟨roots, memory, same⟩ := spec _ ran
    refine ⟨roots, memory, ?_⟩
    cases after
    cases same
    cases queues
    rfl
  cases operation with
  | allocate request => cases plain
  | collect => cases plain
  | reset => exact .inl ⟨rfl, performed⟩
  | addRoot object =>
    have performed' : onHeap (Heap.addRoot object) before = .ok answer after := performed
    refine .inr ⟨by simp, settled performed' fun heap run => ?_⟩
    rw [Heap.addRoot, modifyGet_apply] at run
    cases run
    exact ⟨_, _, rfl⟩
  | setRoot id target =>
    have performed' : onHeap (Heap.setRoot id target) before = .ok answer after := performed
    refine .inr ⟨by simp, settled performed' fun heap run => ?_⟩
    obtain ⟨roots, rfl⟩ := Heap.setRoot_eq_ok run
    exact ⟨roots, _, rfl⟩
  | removeRoot id =>
    have performed' : onHeap (Heap.removeRoot id) before = .ok answer after := performed
    refine .inr ⟨by simp, settled performed' fun heap run => ?_⟩
    obtain ⟨roots, rfl⟩ := Heap.removeRoot_eq_ok run
    exact ⟨roots, _, rfl⟩
  | writeWord object offset word =>
    have performed' : onHeap (Heap.writeWord object offset word) before = .ok answer after :=
      performed
    refine .inr ⟨by simp, settled performed' fun heap run => ?_⟩
    obtain ⟨memory, rfl⟩ := Heap.writeWord_eq_ok run
    exact ⟨_, memory, rfl⟩
  | writeRef object offset target =>
    have performed' : onHeap (Heap.writeWord object offset (Ref.slotWord target)) before =
        .ok answer after := performed
    refine .inr ⟨by simp, settled performed' fun heap run => ?_⟩
    obtain ⟨memory, rfl⟩ := Heap.writeWord_eq_ok run
    exact ⟨_, memory, rfl⟩
  | writePayload object offset bytes =>
    have performed' : onHeap (Heap.writePayload object offset bytes) before = .ok answer after :=
      performed
    refine .inr ⟨by simp, settled performed' fun heap run => ?_⟩
    obtain ⟨memory, rfl⟩ := Heap.writePayload_eq_ok run
    exact ⟨_, memory, rfl⟩

def Heap.announced (heap : Heap σ) (cost : Word) : Heap σ :=
  heap.record (.logged (.thresholdExceeded cost heap.heapSize heap.threshold))

theorem Collector.collect_swallowed {collector : Collector σ}
    (busy : collector.heap.collecting = true) :
    collect collector =
      .ok () { collector with heap := collector.heap.record (.logged .alreadyCollecting) } :=
  (collect_of_busy busy).trans (onHeap_of_ok (Heap.log_eq_ok _))

theorem Collector.collect_announced_of_busy {collector : Collector σ}
    (busy : collector.heap.collecting = true) (cost : Word) :
    collect { collector with heap := collector.heap.announced cost } =
      .ok () { collector with
        heap := (collector.heap.announced cost).record (.logged .alreadyCollecting) } := by
  have busy : (collector.heap.announced cost).collecting = true := busy
  exact collect_swallowed busy

theorem Collector.onHeap_allocateNow_journal {request : Request} {cost : Word}
    {collector after : Collector σ} {answer : Except AllocError Ref}
    (run : onHeap (Heap.allocateNow request cost) collector = .ok answer after)
    (journal : Array Event) :
    ∃ written, onHeap (Heap.allocateNow request cost)
        { collector with heap := { collector.heap with journal } } =
      .ok answer { after with heap := { after.heap with journal := written } } := by
  obtain ⟨run, queues⟩ := onHeap_eq_ok run
  obtain ⟨written, again⟩ := Heap.allocateNow_journal run journal
  refine ⟨written, ?_⟩
  rw [onHeap_of_ok again, ← queues]

theorem Collector.perform_within {collector : Collector σ}
    (busy : collector.heap.collecting = true) (operation : Operation) :
    perform collectWithin operation collector = apply operation collector := by
  cases operation with
  | collect => exact (collect_of_busy busy).symm
  | allocate request =>
    have same : allocate collectWithin request collector = allocate collect request collector := by
      cases accepted : request.accept collector.heap.types collector.queues.size with
      | error error =>
        rw [allocate, get_bind, allocate, get_bind]
        simp only [accepted]
      | ok cost =>
        by_cases large : ¬ request.isExternal ∧ collector.heap.exceedsThreshold cost
        · rw [allocate_of_exceed _ accepted large, allocate_of_exceed _ accepted large]
          refine bind_congr_left (collect_of_busy ?_).symm
          exact busy
        · rw [allocate_of_accept _ accepted large, allocate_of_accept _ accepted large]
    exact same
  | addRoot | setRoot | removeRoot | reset | writeWord | writeRef | writePayload => rfl

end Reclaim
