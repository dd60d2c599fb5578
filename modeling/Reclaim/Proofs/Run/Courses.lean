import Reclaim.Proofs.Run.ExactSizes
import Reclaim.Proofs.Run.Lockstep

namespace Reclaim

variable {σ : Type} [RawMemory σ] {slots : SlotMap}

namespace Collector

variable {collector other : Collector σ}

structure Ready (slots : SlotMap) (collector : Collector σ) : Prop where
  formed : collector.WellFormed
  idle : collector.heap.collecting = false
  slotted : collector.heap.types.Slotted slots
  refs : collector.heap.RefsLive slots

section Ready

omit [RawMemory σ] in
theorem Ready.tidy (ready : collector.Ready slots) {code : Code σ}
    (pending : code.Pending collector.heap.types collector.queues.size) :
    Tidy slots ⟨collector, .code .outside code, []⟩ where
  sound := {
    consistent := ready.formed.consistent
    accounted := ready.formed.accounted
    collecting := ready.idle
    pending := by
      intro other member
      rw [List.mem_singleton.mp member]
      exact pending
    registered := ready.formed.registered
    due := nofun }
  slotted := ready.slotted
  refs := ready.refs

omit [RawMemory σ] in
theorem Ready.of_tidy {point : Point σ} (tidy : Tidy slots point)
    (idle : point.stage.isCollecting = false) : point.collector.Ready slots where
  formed := tidy.sound.wellFormed
  idle := tidy.sound.collecting.trans idle
  slotted := tidy.slotted
  refs := tidy.refs

theorem Ready.step {after : Collector σ} {code rest : Code σ} {new : List (Happening σ)}
    (ready : collector.Ready slots) (step : CodeStep collector code new after rest)
    (pending : code.Pending collector.heap.types collector.queues.size)
    (careful : code.Careful slots collector.heap) : after.Ready slots :=
  .of_tidy ((ready.tidy pending).step careful (.code step .outside [])) rfl

end Ready

def after (operation : Operation) (collector : Collector σ) : Collector σ :=
  final (apply operation collector)

structure Parallel (slots : SlotMap) {α α' : Type} (answers : Pairing → α → α' → Prop)
    (result : EStateM.Result Fault (Collector σ) α)
    (result' : EStateM.Result Fault (Collector σ) α') : Prop where
  outcome : Outcome slots answers result result'
  ready : (final result).heap.collecting = false →
    (final result).Ready slots ∧ (final result').Ready slots

omit [RawMemory σ] in
theorem Parallel.bind {α α' β β' : Type} {answers : Pairing → α → α' → Prop}
    {wanted : Pairing → β → β' → Prop} {first : CollectorM σ α} {first' : CollectorM σ α'}
    {next : α → CollectorM σ β} {next' : α' → CollectorM σ β'}
    (parallel : Parallel slots answers (first collector) (first' other))
    (more : ∀ answer answer' middle middle', first collector = .ok answer middle →
      first' other = .ok answer' middle' → middle.Alike slots middle' →
      (middle.heap.collecting = false → middle.Ready slots ∧ middle'.Ready slots) →
        Parallel slots wanted (next answer middle) (next' answer' middle')) :
    Parallel slots wanted ((first >>= next) collector) ((first' >>= next') other) := by
  obtain ⟨outcome, ready⟩ := parallel
  cases run : first collector with
  | ok answer middle =>
    rw [run] at outcome ready
    cases run' : first' other with
    | ok answer' middle' =>
      rw [run'] at outcome ready
      rw [bind_of_ok run, bind_of_ok run']
      cases outcome with
      | ok _ alike => exact more answer answer' middle middle' run run' alike ready
    | error fault' after' =>
      rw [run'] at outcome
      cases outcome
  | error fault after =>
    rw [run] at outcome ready
    cases run' : first' other with
    | ok answer' middle' =>
      rw [run'] at outcome
      cases outcome
    | error fault' after' =>
      rw [run'] at outcome ready
      rw [bind_of_error run, bind_of_error run']
      cases outcome with
      | error faults alike => exact ⟨.error faults alike, ready⟩

/-- The contract of two collections is kept, from their beginning to their end. -/
def Accord (slots : SlotMap) (collector other : Collector σ) : Prop :=
  ∀ point point', Relation.ReflTransGen Point.Together (.opening collector, .opening other)
    (point, point') → point.Harmonious slots point'

section Collect

theorem collect_of_result {last : Collector σ}
    (result : (Point.opening collector).result = .ok () last) : collect collector = .ok () last := by
  obtain ⟨_, _, collected, finished⟩ := bind_eq_ok.mp result
  cases finished
  exact collected

theorem collect_of_result_error {fault : Fault} {last : Collector σ}
    (result : (Point.opening collector).result = .error fault last) :
    collect collector = .error fault last := by
  rcases bind_eq_error.mp result with collected | ⟨_, _, _, failed⟩
  · exact collected
  · cases failed

variable (alike : collector.Alike slots other) (ready : collector.Ready slots)
  (ready' : other.Ready slots)

include alike ready ready'

theorem Alike.collect (accord : collector.Accord slots other) :
    Parallel slots (fun _ _ _ => True) (collect collector) (collect other) := by
  have opening : Point.Alike slots (.opening collector) (.opening other) :=
    ⟨alike, .asked, ready.tidy trivial, ready'.tidy trivial⟩
  -- one of the two runs is followed to its end, and the other has come just as far
  obtain ⟨last, run, stuck⟩ := halts (.opening collector)
  obtain ⟨last', together, ended⟩ := opening.reaches accord run
  have harmonious := accord last last' together
  have run' : Relation.ReflTransGen Step (.opening other) last' :=
    together.lift Prod.snd fun _ _ step => step.2
  have result := result_eq_of_reaches run
  have result' := result_eq_of_reaches run'
  rcases stuck.cases with finished | ⟨fault, after, gives_up⟩
  · obtain ⟨last, stage, history⟩ := last
    obtain ⟨last', stage', history'⟩ := last'
    cases finished
    have stages := ended.stage
    cases stages
    rw [collect_of_result result.symm, collect_of_result result'.symm]
    exact ⟨.ok trivial ended.collector, fun _ => ⟨.of_tidy ended.tidy rfl, .of_tidy ended.tidy' rfl⟩⟩
  · obtain ⟨fault', after', gives_up', faults, alike'⟩ := ended.gives_up harmonious gives_up
    have lawful := harmonious.careful.lawful ended.tidy.sound.consistent ended.tidy.slotted
      ended.tidy.refs
    have balks := (gives_up.balks ended.tidy.sound lawful).1
    rw [gives_up.result_eq] at result
    rw [gives_up'.result_eq] at result'
    rw [collect_of_result_error result.symm, collect_of_result_error result'.symm]
    refine ⟨.error faults alike', fun idle => ?_⟩
    -- nothing but a callback can have given up
    have collecting : last.stage.isCollecting = true := by
      obtain ⟨last, stage, history⟩ := last
      obtain ⟨last', stage', history'⟩ := last'
      have stages := ended.stage
      cases stages with
      | asked => exact balks.elim
      | ended => exact balks.elim
      | callback => rfl
      | between => rfl
    have same := gives_up.collector_eq ended.tidy.sound lawful
    have idle : after.heap.collecting = false := idle
    rw [same, ended.tidy.sound.collecting, collecting] at idle
    cases idle

end Collect

section Operations

/-- The contract for an admitted request: if a collection is due before it, the contract of the
    collections is kept, and when they are over the raw memories grant no block that overlaps one
    that is held, and grant the same. -/
structure SupportsBoth (slots : SlotMap) (request : Request) (cost : Word)
    (collector other : Collector σ) : Prop where
  collection : collector.isDue request cost = true →
    Accord slots { collector with heap := collector.heap.announced cost }
      { other with heap := other.heap.announced cost }
  fits : ∀ middle, Prepared request cost collector middle → ∀ object host,
    RawMemory.request cost middle.heap.host = (.ok object, host) →
      middle.heap.ledger.Fits (object, cost)
  fits' : ∀ middle, Prepared request cost other middle → ∀ object host,
    RawMemory.request cost middle.heap.host = (.ok object, host) →
      middle.heap.ledger.Fits (object, cost)
  replies : ∀ middle middle', Prepared request cost collector middle →
    Prepared request cost other middle' → RepliesAlike (RawMemory.request cost middle.heap.host).1
      (RawMemory.request cost middle'.heap.host).1

structure Contract (slots : SlotMap) (collector other : Collector σ)
    (operation operation' : Operation) : Prop where
  careful : operation.Careful slots collector.heap
  careful' : operation'.Careful slots other.heap
  collection : operation = .collect → collector.Accord slots other
  allocation : ∀ request cost, operation = .allocate request →
    request.accept collector.heap.types collector.queues.size = .ok cost →
      SupportsBoth slots request cost collector other

variable (alike : collector.Alike slots other) (ready : collector.Ready slots)
  (ready' : other.Ready slots)

include alike ready ready'

theorem Alike.applyPlain {operation operation' : Operation}
    (operations : operation.Alike (collector.pairing other) operation')
    (plain : operation.isPlain = true) (careful : operation.Careful slots collector.heap)
    (careful' : operation'.Careful slots other.heap) :
    Parallel slots (fun pairing => operation.AnswersAlike pairing operation')
      (Collector.apply operation collector) (Collector.apply operation' other) := by
  have plain' := operations.isPlain_eq.trans plain
  have outcome := alike.apply ready.slotted ready.formed.consistent ready'.formed.consistent
    operations plain careful
  refine ⟨outcome, fun _ => ?_⟩
  have stays {collector : Collector σ} {operation : Operation} (ready : collector.Ready slots)
      (plain : operation.isPlain = true) (careful : operation.Careful slots collector.heap) :
      (final (Collector.apply operation collector)).Ready slots := by
    cases performed : Collector.apply operation collector with
    | ok answer after =>
      exact ready.step (.operate plain performed fun _ => .done) trivial careful
    | error fault after =>
      have same : after = collector := apply_eq_error plain ready.formed.consistent performed
      rw [same]
      exact ready
  exact ⟨stays ready plain careful, stays ready' plain' careful'⟩

theorem Alike.allocateReady {request : Request} {cost : Word}
    (pending : ∃ descriptor, request.Admitted collector.heap.types collector.queues.size cost
      descriptor)
    (fits : ∀ object host, RawMemory.request cost collector.heap.host = (.ok object, host) →
      collector.heap.ledger.Fits (object, cost))
    (fits' : ∀ object host, RawMemory.request cost other.heap.host = (.ok object, host) →
      other.heap.ledger.Fits (object, cost))
    (replies : RepliesAlike (RawMemory.request cost collector.heap.host).1
      (RawMemory.request cost other.heap.host).1) :
    Parallel slots GrantsAlike (Collector.onHeap (Heap.allocateNow request cost) collector)
      (Collector.onHeap (Heap.allocateNow request cost) other) := by
  obtain ⟨descriptor, admitted⟩ := pending
  have outcome := alike.allocateNow ready.formed ready'.formed ready.slotted admitted fits fits'
    replies
  have pending' : ∃ descriptor, request.Admitted other.heap.types other.queues.size cost
      descriptor := by
    rw [alike.heap.types, alike.size]
    exact ⟨descriptor, admitted⟩
  cases run : Heap.allocateNow request cost collector.heap with
  | error fault heap =>
    obtain ⟨object, host, granted, full⟩ := Heap.allocateNow_eq_error run
    have room := ready.formed.accounted.room ready.formed.consistent (fits object host granted)
    exact absurd full (Nat.not_le.mpr room)
  | ok answer heap =>
    rw [onHeap_of_ok run] at outcome ⊢
    cases run' : Heap.allocateNow request cost other.heap with
    | error fault' heap' =>
      rw [onHeap_of_error run'] at outcome
      cases outcome
    | ok answer' heap' =>
      rw [onHeap_of_ok run'] at outcome ⊢
      have step : CodeStep collector (.allocate request cost fun _ => .done) _ _ _ :=
        .allocate run _
      have step' : CodeStep other (.allocate request cost fun _ => .done) _ _ _ :=
        .allocate run' _
      have next := ready.step step ⟨descriptor, admitted⟩ fits
      have next' := ready'.step step' pending' fits'
      cases outcome with
      | ok answers alike' => exact ⟨.ok answers.2 alike', fun _ => ⟨next, next'⟩⟩

theorem Alike.allocateAfter {request : Request} {cost : Word}
    (accepted : request.accept collector.heap.types collector.queues.size = .ok cost)
    (large : ¬ request.isExternal ∧ collector.heap.exceedsThreshold cost)
    (supports : SupportsBoth slots request cost collector other) :
    Parallel slots GrantsAlike (Collector.apply (.allocate request) collector)
      (Collector.apply (.allocate request) other) := by
  have accepted' := accepted
  have large' := large
  rw [← alike.heap.types, ← alike.size] at accepted'
  rw [← alike.heap.exceedsThreshold] at large'
  have careful (heap : Heap σ) : Operation.Careful slots heap (.allocate request) :=
    ⟨nofun, nofun, nofun⟩
  have alike' : Collector.Alike slots { collector with heap := collector.heap.announced cost }
      { other with heap := other.heap.announced cost } := alike.with_heap { alike.heap with }
  have begun := ready.step (.exceed accepted large fun _ => .done) trivial (careful _)
  have begun' := ready'.step (.exceed accepted' large' fun _ => .done) trivial (careful _)
  have due := isDue_iff.mpr ⟨ready.idle, large⟩
  have collections := alike'.collect begun begun' (supports.collection due)
  have run : Collector.apply (.allocate request) collector = _ :=
    allocate_of_exceed Collector.collect accepted large
  have run' : Collector.apply (.allocate request) other = _ :=
    allocate_of_exceed Collector.collect accepted' large'
  rw [run, run']
  refine collections.bind fun _ _ middle middle' collected collected' alike ready => ?_
  have prepared := Prepared.collected large (collected_of_ok begun.idle collected)
  have prepared' := Prepared.collected large' (collected_of_ok begun'.idle collected')
  have pending := prepared.admitted accepted
  obtain ⟨ready, ready'⟩ := ready (prepared.counts.2.1.trans begun.idle)
  exact alike.allocateReady ready ready' pending (supports.fits _ prepared)
    (supports.fits' _ prepared') (supports.replies _ _ prepared prepared')

theorem Alike.operate {operation operation' : Operation}
    (operations : operation.Alike (collector.pairing other) operation')
    (contract : collector.Contract slots other operation operation') :
    Parallel slots (fun pairing => operation.AnswersAlike pairing operation')
      (Collector.apply operation collector) (Collector.apply operation' other) := by
  by_cases plain : operation.isPlain = true
  · exact alike.applyPlain ready ready' operations plain contract.careful contract.careful'
  · cases operations with
    | collect => exact alike.collect ready ready' (contract.collection rfl)
    | allocate request =>
      cases accepted : request.accept collector.heap.types collector.queues.size with
      | error error =>
        have accepted' := accepted
        rw [← alike.heap.types, ← alike.size] at accepted'
        rw [allocate_of_refuse accepted, allocate_of_refuse accepted']
        exact ⟨.ok (.error error) alike, fun _ => ⟨ready, ready'⟩⟩
      | ok cost =>
        have supports := contract.allocation request cost rfl accepted
        by_cases large : ¬ request.isExternal ∧ collector.heap.exceedsThreshold cost
        · exact alike.allocateAfter ready ready' accepted large supports
        · have accepted' := accepted
          have small' := large
          rw [← alike.heap.types, ← alike.size] at accepted'
          rw [← alike.heap.exceedsThreshold] at small'
          have run : Collector.apply (.allocate request) collector = _ :=
            allocate_of_accept Collector.collect accepted large
          have run' : Collector.apply (.allocate request) other = _ :=
            allocate_of_accept Collector.collect accepted' small'
          rw [run, run']
          exact alike.allocateReady ready ready' (Request.exists_admitted accepted)
            (supports.fits _ (.directly large)) (supports.fits' _ (.directly small'))
            (supports.replies _ _ (.directly large) (.directly small'))
    | _ => exact absurd rfl plain

end Operations

/-- What an embedder does with two collectors, one thing after the other. Operations may fail, as
    long as they are not given up in the middle of a collection. -/
inductive Course (slots : SlotMap) (collector other : Collector σ) :
    Collector σ → Collector σ → Prop
  | start : Course slots collector other collector other
  | operate {last last' : Collector σ} {operation operation' : Operation}
      (sofar : Course slots collector other last last')
      (operations : operation.Alike (last.pairing last') operation')
      (contract : last.Contract slots last' operation operation')
      (idle : (last.after operation).heap.collecting = false) :
      Course slots collector other (last.after operation) (last'.after operation')
  | addQueue {last last' : Collector σ} {callback callback' : Ref → Program σ}
      (sofar : Course slots collector other last last')
      (callbacks : CallbacksAlike slots callback callback') :
      Course slots collector other { last with queues := last.queues.push callback }
        { last' with queues := last'.queues.push callback' }
  | addScanner {last last' : Collector σ} (sofar : Course slots collector other last last')
      (scan scan' : σ → List Ref) :
      Course slots collector other
        { last with heap := { last.heap with scanners := last.heap.scanners.push scan } }
        { last' with heap := { last'.heap with scanners := last'.heap.scanners.push scan' } }
  | host {last last' : Collector σ} (sofar : Course slots collector other last last')
      (update update' : σ → σ) :
      Course slots collector other
        { last with heap := { last.heap with host := update last.heap.host } }
        { last' with heap := { last'.heap with host := update' last'.heap.host } }

/-- Collectors that are alike stay so, whatever is done with both. -/
theorem Course.alike {last last' : Collector σ} (course : Course slots collector other last last')
    (alike : collector.Alike slots other) (ready : collector.Ready slots)
    (ready' : other.Ready slots) :
    last.Alike slots last' ∧ last.Ready slots ∧ last'.Ready slots := by
  induction course with
  | start => exact ⟨alike, ready, ready'⟩
  | @operate last last' operation operation' sofar operations contract idle ih =>
    obtain ⟨alike, ready, ready'⟩ := ih
    obtain ⟨outcome, goes_on⟩ := alike.operate ready ready' operations contract
    refine ⟨?_, goes_on idle⟩
    rw [after, after]
    -- an operation that failed leaves collectors that are alike, as one that succeeded does
    generalize Collector.apply operation last = result at outcome
    generalize Collector.apply operation' last' = result' at outcome
    cases outcome with
    | ok _ alike => exact alike
    | error _ alike => exact alike
  | @addQueue last last' callback callback' sofar callbacks ih =>
    obtain ⟨alike, ready, ready'⟩ := ih
    exact ⟨alike.with_queue callbacks,
      ready.step (.addQueue last callback fun _ => .done) trivial trivial,
      ready'.step (.addQueue last' callback' fun _ => .done) trivial trivial⟩
  | @addScanner last last' sofar scan scan' ih =>
    obtain ⟨alike, ready, ready'⟩ := ih
    exact ⟨alike.with_heap { alike.heap with },
      ready.step (.addScanner last scan .done) trivial trivial,
      ready'.step (.addScanner last' scan' .done) trivial trivial⟩
  | @host last last' sofar update update' ih =>
    obtain ⟨alike, ready, ready'⟩ := ih
    exact ⟨alike.with_heap { alike.heap with },
      ready.step (.host last update .done) trivial trivial,
      ready'.step (.host last' update' .done) trivial trivial⟩

end Collector

end Reclaim
