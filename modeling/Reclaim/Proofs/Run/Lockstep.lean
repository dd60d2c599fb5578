import Reclaim.Proofs.Run.Blindness
import Reclaim.Proofs.Run.GrowthPolicy

namespace Reclaim

variable {σ : Type}

inductive RepliesAlike : Except ChunkError Ref → Except ChunkError Ref → Prop
  | granted (a b : Ref) : RepliesAlike (.ok a) (.ok b)
  | refused (error : ChunkError) : RepliesAlike (.error error) (.error error)

inductive Code.Alike (slots : SlotMap) : Pairing → Code σ → Code σ → Prop
  | run {pairing : Pairing} {program program' : Program σ}
      (h : program.Alike slots pairing program') :
      Alike slots pairing (.run program) (.run program')
  | allocate {pairing : Pairing} (request : Request) (cost : Word)
      {next next' : Except AllocError Ref → Program σ}
      (more : ∀ (wider : Pairing) answer answer', pairing ⊆ wider →
        GrantsAlike wider answer answer' → (next answer).Alike slots wider (next' answer')) :
      Alike slots pairing (.allocate request cost next) (.allocate request cost next')
  | collect {pairing : Pairing} {next next' : Code σ} (h : Alike slots pairing next next') :
      Alike slots pairing (.collect next) (.collect next')

variable [RawMemory σ]

def Code.Agrees (heap other : Heap σ) : Code σ → Code σ → Prop
  | .allocate _ cost _, .allocate _ cost' _ =>
    RepliesAlike (RawMemory.request cost heap.host).1 (RawMemory.request cost' other.host).1
  | .collect _, .collect _ => heap.collecting = false → heap.ScansAlike other
  | _, _ => True

def Point.Agrees (point other : Point σ) : Prop :=
  match point.stage, other.stage with
  | .code _ code, .code _ code' => code.Agrees point.collector.heap other.collector.heap code'
  | _, _ => True

structure Point.Harmonious (slots : SlotMap) (point other : Point σ) : Prop where
  careful : point.Careful slots
  careful' : other.Careful slots
  agrees : point.Agrees other

def Point.Together (points nexts : Point σ × Point σ) : Prop :=
  Step points.1 nexts.1 ∧ Step points.2 nexts.2

section Allocating

variable {slots : SlotMap} {collector other : Collector σ} {request : Request} {cost : Word}

theorem Collector.Alike.allocateNow (alike : collector.Alike slots other)
    (formed : collector.WellFormed) (formed' : other.WellFormed)
    (slotted : collector.heap.types.Slotted slots) {queues : Nat} {descriptor : Descriptor}
    (admitted : request.Admitted collector.heap.types queues cost descriptor)
    (fits : ∀ object host, RawMemory.request cost collector.heap.host = (.ok object, host) →
      collector.heap.ledger.Fits (object, cost))
    (fits' : ∀ object host, RawMemory.request cost other.heap.host = (.ok object, host) →
      other.heap.ledger.Fits (object, cost))
    (replies : RepliesAlike (RawMemory.request cost collector.heap.host).1
      (RawMemory.request cost other.heap.host).1) :
    Outcome slots (fun wider answer answer' => collector.pairing other ⊆ wider ∧
        GrantsAlike wider answer answer')
      (Collector.onHeap (Heap.allocateNow request cost) collector)
      (Collector.onHeap (Heap.allocateNow request cost) other) := by
  cases asked : RawMemory.request cost collector.heap.host with
  | mk reply host =>
    cases asked' : RawMemory.request cost other.heap.host with
    | mk reply' host' =>
      rw [asked, asked'] at replies
      cases replies with
      | refused error =>
        have run : Heap.allocateNow request cost collector.heap =
            .ok (.error (.allocationFailed error)) _ := Heap.allocateNow_of_refused asked
        have run' : Heap.allocateNow request cost other.heap =
            .ok (.error (.allocationFailed error)) _ := Heap.allocateNow_of_refused asked'
        rw [onHeap_of_ok run, onHeap_of_ok run']
        exact .ok ⟨List.Subset.refl _, .error _⟩ (alike.with_heap { alike.heap with })
      | granted object object' =>
        have room := formed.accounted.room formed.consistent (fits object host asked)
        have room' := formed'.accounted.room formed'.consistent (fits' object' host' asked')
        obtain ⟨after, run, granted⟩ : ∃ after,
            Heap.allocateNow request cost collector.heap = .ok (.ok object) after ∧
              collector.heap.Granted after request cost object :=
          Heap.allocateNow_of_granted asked room
        obtain ⟨after', run', granted'⟩ : ∃ after',
            Heap.allocateNow request cost other.heap = .ok (.ok object') after' ∧
              other.heap.Granted after' request cost object' :=
          Heap.allocateNow_of_granted asked' room'
        have admitted' := admitted
        rw [← alike.heap.types] at admitted'
        have fresh := Effect.fresh_of_fits formed.accounted admitted (fits object host asked)
        have fresh' := Effect.fresh_of_fits formed'.accounted admitted' (fits' object' host' asked')
        have alike' := alike.heap.granted granted granted' fresh fresh' run run'
          formed.consistent.types_valid slotted admitted
        rw [onHeap_of_ok run, onHeap_of_ok run']
        exact .ok ⟨alike.heap.pairing_subset granted granted',
          .ok (alike.heap.pairs_new granted granted')⟩ (alike.with_heap alike')

end Allocating

section Callbacks

variable {slots : SlotMap} {collector other after : Collector σ} {place place' : Place σ}
  {code code' rest : Code σ} {history history' new : List (Happening σ)}

/-- A step of a callback that the other callback has matched. While callbacks run, objects that
    stand for each other go on doing so. -/
def CodeStep.Matched (slots : SlotMap) (collector other : Collector σ) (code' : Code σ)
    (after : Collector σ) (rest : Code σ) : Prop :=
  ∃ new' after' rest', CodeStep other code' new' after' rest' ∧ after.Alike slots after' ∧
    collector.pairing other ⊆ after.pairing after' ∧
    rest.Alike slots (after.pairing after') rest'

theorem Collector.pairing_of_plain {after' : Collector σ} {operation operation' : Operation}
    {answer : operation.Answer} {answer' : operation'.Answer} (plain : operation.isPlain = true)
    (plain' : operation'.isPlain = true) (busy : collector.heap.collecting = true)
    (busy' : other.heap.collecting = true)
    (performed : apply operation collector = .ok answer after)
    (performed' : apply operation' other = .ok answer' after') :
    after.pairing after' = collector.pairing other := by
  obtain ⟨_, roots, memory, rfl⟩ := apply_of_busy plain busy performed
  obtain ⟨_, roots', memory', rfl⟩ := apply_of_busy plain' busy' performed'
  rfl

omit [RawMemory σ] in
theorem Heap.Alike.exceedsThreshold {heap other : Heap σ} (h : heap.Alike slots other)
    (cost : Word) : other.exceedsThreshold cost = heap.exceedsThreshold cost := by
  rw [Heap.exceedsThreshold, Heap.exceedsThreshold, h.growth, h.previousHeapSize, h.heapSize]

omit [RawMemory σ] in
theorem Stage.mem_codes : code ∈ (Stage.code place code).codes := by
  cases place <;> exact List.mem_cons_self

omit [RawMemory σ] in
theorem Operation.Alike.isPlain_eq {pairing : Pairing} {operation operation' : Operation}
    (h : operation.Alike pairing operation') : operation'.isPlain = operation.isPlain := by
  cases h <;> rfl

omit [RawMemory σ] in
theorem Collector.Alike.with_queue (alike : collector.Alike slots other)
    {callback callback' : Ref → Program σ} (h : CallbacksAlike slots callback callback') :
    Collector.Alike slots { collector with queues := collector.queues.push callback }
      { other with queues := other.queues.push callback' } where
  heap := alike.heap
  size := by
    rw [Array.size_push, Array.size_push, alike.size]
  queue := by
    intro i
    simp only [Array.getElem?_push, alike.size]
    split
    · exact .some h
    · exact alike.queue i

section

variable (alike : collector.Alike slots other)
  (tidy : Tidy slots ⟨collector, .code place code, history⟩)
  (tidy' : Tidy slots ⟨other, .code place' code', history'⟩)
  (busy : collector.heap.collecting = true)

include alike tidy tidy' busy

theorem CodeStep.call_alike {operation operation' : Operation}
    {next : operation.Answer → Program σ} {next' : operation'.Answer → Program σ}
    (careful : operation.Careful slots collector.heap)
    (operations : operation.Alike (collector.pairing other) operation')
    (more : ∀ (wider : Pairing) answer answer', collector.pairing other ⊆ wider →
      operation.AnswersAlike wider operation' answer answer' →
        (next answer).Alike slots wider (next' answer'))
    (step : CodeStep collector (.run (.call operation next)) new after rest) :
    CodeStep.Matched slots collector other (.run (.call operation' next')) after rest := by
  have same := List.Subset.refl (collector.pairing other)
  cases step with
  | operate plain performed next =>
    have plain' := operations.isPlain_eq.trans plain
    have outcome := alike.apply tidy.slotted tidy.sound.consistent tidy'.sound.consistent operations
      plain careful
    rw [performed] at outcome
    cases performed' : Collector.apply operation' other with
    | error fault after' =>
      rw [performed'] at outcome
      cases outcome
    | ok answer' after' =>
      rw [performed'] at outcome
      cases outcome with
      | ok answers alike' =>
        have busy' := alike.heap.collecting.trans busy
        have kept : collector.pairing other ⊆ after.pairing after' := by
          rw [Collector.pairing_of_plain plain plain' busy busy' performed performed']
          exact same
        exact ⟨_, _, _, .operate plain' performed' next', alike', kept,
          .run (more _ _ _ kept answers)⟩
  | collect next =>
    cases operations
    exact ⟨_, _, _, .collect other next', alike, same, .collect (.run (more _ () () same trivial))⟩
  | @refuse request error refused next =>
    cases operations
    rw [← alike.heap.types, ← alike.size] at refused
    exact ⟨_, _, _, .refuse refused next', alike, same, .run (more _ _ _ same (.error error))⟩
  | accept accepted small next =>
    cases operations
    rw [← alike.heap.types, ← alike.size] at accepted
    rw [← alike.heap.exceedsThreshold] at small
    exact ⟨_, _, _, .accept accepted small next', alike, same, .allocate _ _ more⟩
  | exceed accepted large next =>
    cases operations
    rw [← alike.heap.types, ← alike.size] at accepted
    rw [← alike.heap.exceedsThreshold] at large
    exact ⟨_, _, _, .exceed accepted large next', alike.with_heap { alike.heap with }, same,
      .collect (.allocate _ _ more)⟩

theorem CodeStep.run_alike {program program' : Program σ}
    (careful : Code.Careful slots collector.heap (.run program))
    (programs : program.Alike slots (collector.pairing other) program')
    (step : CodeStep collector (.run program) new after rest) :
    CodeStep.Matched slots collector other (.run program') after rest := by
  have same := List.Subset.refl (collector.pairing other)
  cases programs with
  | done => cases step
  | fail h => cases step
  | call h more => exact step.call_alike alike tidy tidy' busy careful h more
  | inspect more =>
    cases step
    exact ⟨_, _, _, .inspect other _, alike, same, .run (more _ _ alike.heap same)⟩
  | addQueue callbacks more =>
    cases step
    rw [← alike.size]
    exact ⟨_, _, _, .addQueue other _ _, alike.with_queue callbacks, same, .run (more _)⟩
  | addScanner scan scan' more =>
    cases step
    exact ⟨_, _, _, .addScanner other scan' _, alike.with_heap { alike.heap with }, same, .run more⟩
  | host update update' more =>
    cases step
    exact ⟨_, _, _, .host other update' _, alike.with_heap { alike.heap with }, same, .run more⟩

theorem CodeStep.matched
    (harmonious : Point.Harmonious slots ⟨collector, .code place code, history⟩
      ⟨other, .code place' code', history'⟩)
    (codes : code.Alike slots (collector.pairing other) code')
    (step : CodeStep collector code new after rest) :
    CodeStep.Matched slots collector other code' after rest := by
  cases codes with
  | run programs => exact step.run_alike alike tidy tidy' busy harmonious.careful programs
  | collect h => cases step
  | @allocate request cost _ next' more =>
    cases step with
    | allocate answered next =>
      obtain ⟨descriptor, admitted⟩ := tidy.sound.pending _ Stage.mem_codes
      have outcome := alike.allocateNow tidy.sound.wellFormed tidy'.sound.wellFormed tidy.slotted
        admitted harmonious.careful harmonious.careful' harmonious.agrees
      rw [Collector.onHeap_of_ok answered] at outcome
      cases answered' : Heap.allocateNow request cost other.heap with
      | error fault heap =>
        rw [Collector.onHeap_of_error answered'] at outcome
        cases outcome
      | ok answer' heap' =>
        rw [Collector.onHeap_of_ok answered'] at outcome
        cases outcome with
        | ok answers alike' =>
          obtain ⟨wider, answers⟩ := answers
          exact ⟨_, _, _, .allocate answered' next', alike', wider,
            .run (more _ _ _ wider answers)⟩

end

end Callbacks

section Collecting

structure Collection.Alike (pairing : Pairing) (collection other : Collection σ) : Prop where
  waiting : List.Forall₂ (FinalizerEntry.Alike pairing) collection.waiting other.waiting
  caller : collection.caller = .run .done
  caller' : other.caller = .run .done

omit [RawMemory σ] in
theorem Collection.Alike.mono {pairing wider : Pairing} {collection other : Collection σ}
    (h : collection.Alike pairing other) (sub : pairing ⊆ wider) : collection.Alike wider other :=
  { h with waiting := h.waiting.imp fun _ _ alike => alike.mono sub }

inductive Stage.Alike (slots : SlotMap) (pairing : Pairing) : Stage σ → Stage σ → Prop
  | asked : Alike slots pairing (.code .outside (.collect (.run .done)))
      (.code .outside (.collect (.run .done)))
  | callback {entry entry' : FinalizerEntry} {collection collection' : Collection σ}
      {code code' : Code σ} (entries : entry.Alike pairing entry')
      (collections : collection.Alike pairing collection') (h : code.Alike slots pairing code') :
      Alike slots pairing (.code (.callback entry collection) code)
        (.code (.callback entry' collection') code')
  | between {collection collection' : Collection σ}
      (collections : collection.Alike pairing collection') :
      Alike slots pairing (.between collection) (.between collection')
  | ended : Alike slots pairing (.code .outside (.run .done)) (.code .outside (.run .done))

structure Point.Alike (slots : SlotMap) (point other : Point σ) : Prop where
  collector : point.collector.Alike slots other.collector
  stage : point.stage.Alike slots (point.collector.pairing other.collector) other.stage
  tidy : Tidy slots point
  tidy' : Tidy slots other

namespace Point.Alike

variable {slots : SlotMap} {collector other after : Collector σ} {place : Place σ}
  {stage' : Stage σ} {code rest next : Code σ} {history history' new : List (Happening σ)}

theorem step_code
    (alike : Point.Alike slots ⟨collector, .code place code, history⟩ ⟨other, stage', history'⟩)
    (harmonious : Point.Harmonious slots ⟨collector, .code place code, history⟩
      ⟨other, stage', history'⟩)
    (step : CodeStep collector code new after rest) :
    ∃ next', Step ⟨other, stage', history'⟩ next' ∧
      Point.Alike slots ⟨after, .code place rest, history ++ new⟩ next' := by
  obtain ⟨alike, stages, tidy, tidy'⟩ := alike
  have tidy_next := tidy.step harmonious.careful (.code step place history)
  cases stages with
  | asked => cases step
  | ended => cases step
  | @callback entry entry' collection collection' _ code' entries collections codes =>
    obtain ⟨new', after', rest', step', alike', sub, codes'⟩ :=
      step.matched alike tidy tidy' tidy.sound.collecting harmonious codes
    exact ⟨_, .code step' (.callback entry' collection') history', alike',
      .callback (entries.mono sub) (collections.mono sub) codes', tidy_next,
      tidy'.step harmonious.careful' (.code step' _ history')⟩

theorem step_reclaim {cycle : Cycle} {heap : Heap σ}
    (alike : Point.Alike slots ⟨collector, .code .outside (.collect next), history⟩
      ⟨other, stage', history'⟩)
    (harmonious : Point.Harmonious slots ⟨collector, .code .outside (.collect next), history⟩
      ⟨other, stage', history'⟩)
    (idle : collector.heap.collecting = false)
    (reclaimed : Heap.reclaim collector.heap = .ok cycle heap) :
    ∃ next', Step ⟨other, stage', history'⟩ next' ∧
      Point.Alike slots ⟨{ collector with heap }, .between ⟨cycle, cycle.scheduled, next⟩,
        history ++ Happening.ofCycle collector.heap cycle heap⟩ next' := by
  obtain ⟨alike, stages, tidy, tidy'⟩ := alike
  have tidy_next := tidy.step harmonious.careful (.reclaim idle reclaimed next history)
  cases stages with
  | asked =>
    have idle' : other.heap.collecting = false := alike.heap.collecting.trans idle
    have traceable := tidy.refs.traceable tidy.slotted tidy.sound.consistent
      (harmonious.careful idle)
    have traceable' := tidy'.refs.traceable tidy'.slotted tidy'.sound.consistent
      (harmonious.careful' idle')
    have poised : collector.heap.Poised slots other.heap := {
      alike := alike.heap
      slotted := tidy.slotted
      consistent := tidy.sound.consistent
      consistent' := tidy'.sound.consistent
      refs := tidy.refs
      refs' := tidy'.refs
      traceable, traceable'
      scans := harmonious.agrees idle }
    have spec := Heap.reclaimed_of_ok tidy.sound.consistent traceable reclaimed
    obtain ⟨cycle', heap', reclaimed', spec'⟩ :=
      Heap.exists_reclaimed tidy'.sound.consistent traceable'
    have step' : Step ⟨other, .code .outside (.collect (.run .done)), history'⟩ _ :=
      .reclaim idle' reclaimed' _ history'
    exact ⟨_, step', alike.with_heap (poised.reclaimed spec spec'),
      .between ⟨poised.scheduled spec spec', rfl, rfl⟩, tidy_next,
      tidy'.step harmonious.careful' step'⟩

theorem step_nested (busy : place.isCallback = true ∨ collector.heap.collecting = true)
    (alike : Point.Alike slots ⟨collector, .code place (.collect next), history⟩
      ⟨other, stage', history'⟩)
    (harmonious : Point.Harmonious slots ⟨collector, .code place (.collect next), history⟩
      ⟨other, stage', history'⟩) :
    ∃ next', Step ⟨other, stage', history'⟩ next' ∧ Point.Alike slots
      ⟨{ collector with heap := collector.heap.record (.logged .alreadyCollecting) },
        .code place next, history⟩ next' := by
  obtain ⟨alike, stages, tidy, tidy'⟩ := alike
  have tidy_next := tidy.step harmonious.careful (.nested busy next history)
  cases stages with
  | asked =>
    rcases busy with callback | collecting
    · cases callback
    · exact absurd (collecting.symm.trans tidy.sound.collecting) Bool.true_eq_false_eq_False
  | @callback entry entry' collection collection' _ _ entries collections codes =>
    cases codes with
    | @collect _ next' h =>
      have step' : Step ⟨other, .code (.callback entry' collection') (.collect next'), history'⟩ _ :=
        .nested (.inl rfl) next' history'
      exact ⟨_, step', alike.with_heap { alike.heap with }, .callback entries collections h,
        tidy_next, tidy'.step harmonious.careful' step'⟩

theorem step_call {entry : FinalizerEntry} {callback : Ref → Program σ}
    {cycle : Cycle} {waiting : List FinalizerEntry}
    (found : collector.queues[entry.queue.index]? = some callback)
    (alike : Point.Alike slots ⟨collector, .between ⟨cycle, entry :: waiting, code⟩, history⟩
      ⟨other, stage', history'⟩)
    (harmonious : Point.Harmonious slots
      ⟨collector, .between ⟨cycle, entry :: waiting, code⟩, history⟩ ⟨other, stage', history'⟩) :
    ∃ next', Step ⟨other, stage', history'⟩ next' ∧ Point.Alike slots
      ⟨{ collector with heap := collector.heap.record (.logged (.runningFinalizer entry)) },
        .code (.callback entry ⟨cycle, waiting, code⟩) (.run (callback entry.object)),
        history ++ [.called entry callback]⟩ next' := by
  obtain ⟨alike, stages, tidy, tidy'⟩ := alike
  have tidy_next := tidy.step harmonious.careful (.call found cycle waiting code history)
  cases stages with
  | @between _ collection' collections =>
    obtain ⟨cycle', waiting', code'⟩ := collection'
    obtain ⟨entries, caller, caller'⟩ := collections
    cases entries with
    | @cons _ entry' _ waiting' first entries =>
      have lookup := alike.queue entry.queue.index
      rw [found] at lookup
      cases found' : other.queues[entry.queue.index]? with
      | none =>
        rw [found'] at lookup
        cases lookup
      | some callback' =>
        rw [found'] at lookup
        cases lookup with
        | some callbacks =>
          rw [← first.queue] at found'
          have step' : Step ⟨other, .between ⟨cycle', entry' :: waiting', code'⟩, history'⟩ _ :=
            .call found' cycle' waiting' code' history'
          exact ⟨_, step', alike.with_heap { alike.heap with },
            .callback first ⟨entries, caller, caller'⟩ (.run (callbacks _ _ _ first.object)),
            tidy_next, tidy'.step harmonious.careful' step'⟩

theorem step {point other next : Point σ} (alike : Point.Alike slots point other)
    (harmonious : Point.Harmonious slots point other) (step : Step point next) :
    ∃ next', Step other next' ∧ Point.Alike slots next next' := by
  obtain ⟨collector', stage', history'⟩ := other
  have tidy_next := alike.tidy.step harmonious.careful step
  cases step with
  | code step place history => exact alike.step_code harmonious step
  | nested busy next history => exact alike.step_nested busy harmonious
  | reclaim idle reclaimed next history => exact alike.step_reclaim harmonious idle reclaimed
  | call found cycle waiting caller history => exact alike.step_call found harmonious
  | «return» collector entry collection history =>
    obtain ⟨alike, stages, _, tidy'⟩ := alike
    cases stages with
    | @callback _ entry' _ collection' _ _ entries collections codes =>
      cases codes with
      | run programs =>
        cases programs with
        | done =>
          have step' := Step.return collector' entry' collection' history'
          have stats : collector'.heap.stats.countFinalizer entry' =
              collector.heap.stats.countFinalizer entry := by
            rw [Stats.countFinalizer, Stats.countFinalizer, alike.heap.stats, entries.light]
          exact ⟨_, step', alike.with_heap { alike.heap with stats }, .between collections,
            tidy_next, tidy'.step harmonious.careful' step'⟩
  | @finish collector cycle heap finished caller history =>
    obtain ⟨alike, stages, _, tidy'⟩ := alike
    cases stages with
    | @between _ collection' collections =>
      obtain ⟨cycle', waiting', caller'⟩ := collection'
      obtain ⟨entries, rfl, rfl⟩ := collections
      cases entries
      cases finished
      have step' : Step ⟨collector', .between ⟨cycle', [], .run .done⟩, history'⟩ _ :=
        .finish rfl _ history'
      have baseline : max collector'.heap.heapSize collector'.heap.growth.minHeapSize =
          max collector.heap.heapSize collector.heap.growth.minHeapSize := by
        rw [alike.heap.heapSize, alike.heap.growth]
      exact ⟨_, step', alike.with_heap { alike.heap with
        previousHeapSize := baseline, collecting := rfl }, .ended, tidy_next,
        tidy'.step harmonious.careful' step'⟩

theorem gives_up {point other : Point σ} {fault : Fault} {last : Collector σ}
    (alike : Point.Alike slots point other) (harmonious : Point.Harmonious slots point other)
    (gives_up : GivesUp point fault last) :
    ∃ fault' last', GivesUp other fault' last' ∧ fault.Alike (last.pairing last') fault' ∧
      last.Alike slots last' := by
  obtain ⟨collector', stage', history'⟩ := other
  obtain ⟨alike, stages, tidy, tidy'⟩ := alike
  have lawful := harmonious.careful.lawful tidy.sound.consistent tidy.slotted tidy.refs
  obtain ⟨balks, _⟩ := gives_up.balks tidy.sound lawful
  cases gives_up with
  | fail _ fault place history =>
    cases stages with
    | callback entries collections codes =>
      cases codes with
      | run programs =>
        cases programs with
        | fail faults => exact ⟨_, _, .fail collector' _ _ history', faults, alike⟩
  | @operate collector after operation fault plain failed next place history =>
    cases stages with
    | callback entries collections codes =>
      cases codes with
      | run programs =>
        cases programs with
        | @call _ _ operation' _ next' operations more =>
          have outcome := alike.apply tidy.slotted tidy.sound.consistent tidy'.sound.consistent
            operations plain harmonious.careful
          rw [failed] at outcome
          cases failed' : Collector.apply operation' collector' with
          | ok answer' last' =>
            rw [failed'] at outcome
            cases outcome
          | error fault' last' =>
            rw [failed'] at outcome
            cases outcome with
            | error faults alike' =>
              have plain' := operations.isPlain_eq.trans plain
              exact ⟨_, _, .operate plain' failed' next' _ history', faults, alike'⟩
  | allocate => exact balks.elim
  | reclaim => exact balks.elim
  | call => exact balks.elim

theorem reaches {point other last : Point σ} (alike : Point.Alike slots point other)
    (kept : ∀ later later', Relation.ReflTransGen Together (point, other) (later, later') →
      Point.Harmonious slots later later')
    (run : Relation.ReflTransGen Step point last) :
    ∃ last', Relation.ReflTransGen Together (point, other) (last, last') ∧
      Point.Alike slots last last' := by
  -- the contract is asked for along the steps that both have taken, not along either run alone
  induction run with
  | refl => exact ⟨other, .refl, alike⟩
  | tail _ step ih =>
    obtain ⟨middle', run, alike⟩ := ih
    obtain ⟨last', step', alike'⟩ := alike.step (kept _ _ run) step
    exact ⟨last', run.tail ⟨step, step'⟩, alike'⟩

end Point.Alike

end Collecting

end Reclaim
