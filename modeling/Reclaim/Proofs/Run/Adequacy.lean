import Reclaim.Proofs.Heap.Actions
import Reclaim.Proofs.Run.Step

namespace Reclaim

variable {σ : Type} [RawMemory σ]

def Code.runWith (collect : CollectorM σ Unit) : Code σ → CollectorM σ Unit
  | .run program => program.runWith collect
  | .allocate request cost next => do
    (next (← Collector.onHeap (Heap.allocateNow request cost))).runWith collect
  | .collect next => do
    collect
    next.runWith collect

def Collection.resume (collection : Collection σ) : CollectorM σ Unit := do
  collection.waiting.forM Collector.runFinalizer
  Collector.onHeap (Heap.finish collection.cycle)
  collection.caller.runWith Collector.collect

namespace Point

def rest : Stage σ → CollectorM σ Unit
  | .code .outside code => code.runWith Collector.collect
  | .code (.callback entry collection) code => do
    code.runWith Collector.collectWithin
    Collector.onHeap (modify fun heap => { heap with stats := heap.stats.countFinalizer entry })
    collection.resume
  | .between collection => collection.resume

def result (point : Point σ) : EStateM.Result Fault (Collector σ) Unit :=
  rest point.stage point.collector

end Point

section Preservation

theorem Collector.perform_of_plain {operation : Operation} (plain : operation.isPlain = true)
    (first second : CollectorM σ Unit) : perform first operation = perform second operation := by
  cases operation <;> first | rfl | cases plain

theorem Collector.allocate_of_accept (collect : CollectorM σ Unit) {collector : Collector σ}
    {request : Request} {cost : Word}
    (accepted : request.accept collector.heap.types collector.queues.size = .ok cost)
    (small : ¬ (¬ request.isExternal ∧ collector.heap.exceedsThreshold cost)) :
    allocate collect request collector =
      onHeap (Heap.allocateNow request cost) collector := by
  rw [allocate, get_bind]
  simp only [accepted, if_neg small]

theorem Collector.allocate_of_exceed (collect : CollectorM σ Unit) {collector : Collector σ}
    {request : Request} {cost : Word}
    (accepted : request.accept collector.heap.types collector.queues.size = .ok cost)
    (large : ¬ request.isExternal ∧ collector.heap.exceedsThreshold cost) :
    allocate collect request collector =
      (collect >>= fun _ => onHeap (Heap.allocateNow request cost)) { collector with
        heap := collector.heap.record (.logged
          (.thresholdExceeded cost collector.heap.heapSize collector.heap.threshold)) } := by
  rw [allocate, get_bind]
  simp only [accepted, if_pos large]
  rfl

omit [RawMemory σ] in
theorem Collector.onHeap_of_ok {α : Type} {action : HeapM σ α} {collector : Collector σ}
    {value : α} {heap : Heap σ} (h : action collector.heap = .ok value heap) :
    onHeap action collector = .ok value { collector with heap } := by
  simp only [onHeap, h]

theorem CodeStep.runWith_eq {before after : Collector σ} {code rest : Code σ}
    {new : List (Happening σ)} (step : CodeStep before code new after rest)
    (collect : CollectorM σ Unit) :
    code.runWith collect before = rest.runWith collect after := by
  cases step with
  | inspect next => rfl
  | operate plain performed next =>
    rw [Collector.apply, Collector.perform_of_plain plain _ collect] at performed
    exact bind_of_ok performed
  | collect next => rfl
  | @refuse request error refused next =>
    have answered : Collector.allocate collect request before = .ok (.error error) before := by
      rw [Collector.allocate, get_bind]
      simp only [refused]
      rfl
    exact bind_of_ok answered
  | accept accepted small next =>
    have answered := Collector.allocate_of_accept collect accepted small
    simp only [Code.runWith, Program.runWith, Collector.perform, bind, EStateM.bind, answered]
  | exceed accepted large next =>
    have answered := Collector.allocate_of_exceed collect accepted large
    simp only [Code.runWith, Program.runWith, Collector.perform]
    simp only [bind, EStateM.bind] at answered ⊢
    rw [answered]
    cases collect _ <;> rfl
  | allocate answered next => exact bind_of_ok (Collector.onHeap_of_ok answered)
  | addQueue callback next => rfl
  | addScanner scan next => rfl
  | host update next => rfl
  | poke update next => rfl

theorem Collector.collect_of_busy {collector : Collector σ}
    (busy : collector.heap.collecting = true) : collect collector = collectWithin collector := by
  rw [collect, get_bind, if_pos busy]

theorem Collection.resume_cons (cycle : Cycle) (entry : FinalizerEntry)
    (waiting : List FinalizerEntry) (caller : Code σ) :
    (⟨cycle, entry :: waiting, caller⟩ : Collection σ).resume =
      (Collector.runFinalizer entry >>= fun _ => Collection.resume ⟨cycle, waiting, caller⟩) := by
  simp only [resume, List.forM, bind_assoc]

theorem Collector.runFinalizer_eq {collector : Collector σ} {entry : FinalizerEntry}
    {callback : Ref → Program σ}
    (found : collector.queues[entry.queue.index]? = some callback) :
    runFinalizer entry collector =
      ((callback entry.object).runWith collectWithin >>= fun _ =>
        onHeap (modify fun heap => { heap with stats := heap.stats.countFinalizer entry }))
      { collector with heap := collector.heap.record (.logged (.runningFinalizer entry)) } := by
  rw [runFinalizer, get_bind]
  simp only [found]
  rw [bind_of_ok (onHeap_of_ok (Heap.log_eq_ok _))]

/-- A step changes nothing about how a run ends. -/
theorem Step.result_eq {point next : Point σ} (step : Step point next) :
    next.result = point.result := by
  -- each step is one unfolding of the operation that it belongs to
  cases step with
  | code step place history =>
    cases place with
    | outside => exact (step.runWith_eq Collector.collect).symm
    | callback entry collection =>
      have same := step.runWith_eq Collector.collectWithin
      simp only [Point.result, Point.rest, bind, EStateM.bind, same]
  | @nested collector place busy next history =>
    cases place with
    | outside =>
      have busy : collector.heap.collecting = true := by simpa [Place.isCallback] using busy
      have first := (Collector.collect_of_busy busy).trans
        (Collector.onHeap_of_ok (Heap.log_eq_ok LogRecord.alreadyCollecting))
      have run : (Code.collect next).runWith Collector.collect collector = _ := bind_of_ok first
      exact run.symm
    | callback entry collection => rfl
  | @reclaim collector cycle heap idle reclaimed next history =>
    have first := Collector.onHeap_of_ok reclaimed
    have idle : ¬ collector.heap.collecting = true := by simp [idle]
    have started : Collector.collect collector = (cycle.scheduled.forM Collector.runFinalizer >>=
        fun _ => Collector.onHeap (Heap.finish cycle)) { collector with heap } := by
      rw [Collector.collect, get_bind, if_neg idle]
      exact bind_of_ok first
    simp only [Point.result, Point.rest, Code.runWith, Collection.resume, bind, EStateM.bind]
      at started ⊢
    rw [started]
    cases (cycle.scheduled.forM Collector.runFinalizer) { collector with heap } <;> rfl
  | @call collector entry callback found cycle waiting caller history =>
    have first := Collector.runFinalizer_eq found
    have run : Point.rest (.between ⟨cycle, entry :: waiting, caller⟩) collector =
        (Collector.runFinalizer entry >>= fun _ =>
          Collection.resume ⟨cycle, waiting, caller⟩) collector :=
      congrFun (Collection.resume_cons cycle entry waiting caller) collector
    rw [bind_congr_left first, bind_assoc] at run
    exact run.symm
  | «return» collector entry collection history => rfl
  | @finish collector cycle heap finished caller history =>
    have run : (Collector.onHeap (Heap.finish cycle) >>= fun _ =>
        caller.runWith Collector.collect) collector = _ :=
      bind_of_ok (Collector.onHeap_of_ok finished)
    exact run.symm

end Preservation

section Termination

def Stuck (point : Point σ) : Prop :=
  ∀ next, ¬ Step point next

def Halts (point : Point σ) : Prop :=
  ∃ last, Relation.ReflTransGen Step point last ∧ Stuck last

theorem Halts.of_next {point : Point σ} (more : ∀ next, Step point next → Halts next) :
    Halts point := by
  by_cases going : ∃ next, Step point next
  · obtain ⟨next, step⟩ := going
    obtain ⟨last, run, stops⟩ := more next step
    exact ⟨last, .head step run, stops⟩
  · exact ⟨point, .refl, fun next step => going ⟨next, step⟩⟩

theorem halts_allocate {place : Place σ} {request : Request} {cost : Word}
    {next : Except AllocError Ref → Program σ}
    (more : ∀ answer collector history,
      Halts ⟨collector, .code place (.run (next answer)), history⟩) (collector : Collector σ)
    (history : List (Happening σ)) :
    Halts ⟨collector, .code place (.allocate request cost next), history⟩ := by
  refine .of_next fun point step => ?_
  cases step with
  | code step =>
    cases step with
    | allocate answered => exact more _ _ _

theorem halts_run {place : Place σ}
    (done : ∀ collector history, Halts ⟨collector, .code place (.run .done), history⟩)
    (collect : ∀ next : Code σ,
      (∀ collector history, Halts ⟨collector, .code place next, history⟩) →
        ∀ collector history, Halts ⟨collector, .code place (.collect next), history⟩)
    (program : Program σ) (collector : Collector σ) (history : List (Happening σ)) :
    Halts ⟨collector, .code place (.run program), history⟩ := by
  -- programs are finite trees, so only what comes after them is left to the hypotheses
  induction program generalizing collector history with
  | done => exact done collector history
  | fail fault =>
    refine .of_next fun point step => ?_
    cases step with
    | code step => cases step
  | inspect next ih =>
    refine .of_next fun point step => ?_
    cases step with
    | code step =>
      cases step with
      | inspect => exact ih _ _ _
  | call operation next ih =>
    refine .of_next fun point step => ?_
    cases step with
    | code step =>
      cases step with
      | operate => exact ih _ _ _
      | collect => exact collect _ (ih _) _ _
      | refuse => exact ih _ _ _
      | accept => exact halts_allocate ih _ _
      | exceed => exact collect _ (halts_allocate ih) _ _
  | addQueue callback next _ ih =>
    refine .of_next fun point step => ?_
    cases step with
    | code step =>
      cases step with
      | addQueue => exact ih _ _ _
  | addScanner scan next ih =>
    refine .of_next fun point step => ?_
    cases step with
    | code step =>
      cases step with
      | addScanner => exact ih _ _
  | host update next ih =>
    refine .of_next fun point step => ?_
    cases step with
    | code step =>
      cases step with
      | host => exact ih _ _
  | poke update next ih =>
    refine .of_next fun point step => ?_
    cases step with
    | code step =>
      cases step with
      | poke => exact ih _ _

theorem halts_nested {entry : FinalizerEntry} {collection : Collection σ} {next : Code σ}
    (more : ∀ collector history, Halts ⟨collector, .code (.callback entry collection) next, history⟩)
    (collector : Collector σ) (history : List (Happening σ)) :
    Halts ⟨collector, .code (.callback entry collection) (.collect next), history⟩ := by
  refine .of_next fun point step => ?_
  cases step with
  | code step => cases step
  | nested => exact more _ _

theorem halts_callback {entry : FinalizerEntry} {collection : Collection σ}
    (between : ∀ collector history, Halts ⟨collector, .between collection, history⟩)
    (program : Program σ) (collector : Collector σ) (history : List (Happening σ)) :
    Halts ⟨collector, .code (.callback entry collection) (.run program), history⟩ := by
  refine halts_run ?_ (fun _ => halts_nested) program collector history
  intro collector history
  refine .of_next fun point step => ?_
  cases step with
  | code step => cases step
  | «return» => exact between _ _

theorem halts_between {caller : Code σ} (cycle : Cycle) (waiting : List FinalizerEntry)
    (outside : ∀ collector history, Halts ⟨collector, .code .outside caller, history⟩)
    (collector : Collector σ) (history : List (Happening σ)) :
    Halts ⟨collector, .between ⟨cycle, waiting, caller⟩, history⟩ := by
  -- callbacks do not add to the finalizers that are waiting, so each call leaves fewer
  induction waiting generalizing collector history with
  | nil =>
    refine .of_next fun point step => ?_
    cases step with
    | finish => exact outside _ _
  | cons entry waiting ih =>
    refine .of_next fun point step => ?_
    cases step with
    | call => exact halts_callback ih _ _ _

theorem halts_collect {next : Code σ}
    (more : ∀ collector history, Halts ⟨collector, .code .outside next, history⟩)
    (collector : Collector σ) (history : List (Happening σ)) :
    Halts ⟨collector, .code .outside (.collect next), history⟩ := by
  refine .of_next fun point step => ?_
  cases step with
  | code step => cases step
  | nested => exact more _ _
  | reclaim => exact halts_between _ _ more _ _

theorem halts_outside (program : Program σ) (collector : Collector σ)
    (history : List (Happening σ)) :
    Halts ⟨collector, .code .outside (.run program), history⟩ := by
  refine halts_run ?_ (fun _ => halts_collect) program collector history
  intro collector history
  refine .of_next fun point step => ?_
  cases step with
  | code step => cases step

theorem halts_start (collector : Collector σ) (program : Program σ) :
    Halts (.start collector program) :=
  halts_outside program collector []

theorem halts_code {place : Place σ}
    (run : ∀ program collector history, Halts ⟨collector, .code place (.run program), history⟩)
    (collect : ∀ next : Code σ,
      (∀ collector history, Halts ⟨collector, .code place next, history⟩) →
        ∀ collector history, Halts ⟨collector, .code place (.collect next), history⟩)
    (code : Code σ) (collector : Collector σ) (history : List (Happening σ)) :
    Halts ⟨collector, .code place code, history⟩ := by
  induction code generalizing collector history with
  | run program => exact run program collector history
  | allocate request cost next => exact halts_allocate (fun answer => run (next answer)) _ _
  | collect next ih => exact collect next ih collector history

/-- Every run comes to an end, wherever it begins. -/
theorem halts (point : Point σ) : Halts point := by
  have outside := @halts_code σ _ .outside halts_outside fun _ => halts_collect
  obtain ⟨collector, stage, history⟩ := point
  cases stage with
  | between collection => exact halts_between _ _ (outside collection.caller) collector history
  | code place code =>
    cases place with
    | outside => exact outside code collector history
    | callback entry collection =>
      have between := halts_between collection.cycle collection.waiting (outside collection.caller)
      exact halts_code (halts_callback between) (fun _ => halts_nested) code collector history

end Termination

theorem result_eq_of_reaches {point last : Point σ} (run : Relation.ReflTransGen Step point last) :
    last.result = point.result := by
  induction run with
  | refl => rfl
  | tail _ step ih => exact step.result_eq.trans ih

theorem result_of_error {collector after : Collector σ} {code : Code σ} {fault : Fault}
    (gives_up : ∀ collect, code.runWith collect collector = .error fault after) (place : Place σ)
    (history : List (Happening σ)) :
    Point.result ⟨collector, .code place code, history⟩ = .error fault after := by
  cases place with
  | outside => exact gives_up _
  | callback entry collection => exact bind_of_error (gives_up _)

omit [RawMemory σ] in
theorem Collector.onHeap_of_error {α : Type} {action : HeapM σ α} {collector : Collector σ}
    {fault : Fault} {heap : Heap σ} (h : action collector.heap = .error fault heap) :
    onHeap action collector = .error fault { collector with heap } := by
  simp only [onHeap, h]

inductive GivesUp : Point σ → Fault → Collector σ → Prop
  | fail (collector : Collector σ) (fault : Fault) (place : Place σ)
      (history : List (Happening σ)) :
      GivesUp ⟨collector, .code place (.run (.fail fault)), history⟩ fault collector
  | operate {before after : Collector σ} {operation : Operation} {fault : Fault}
      (plain : operation.isPlain = true)
      (failed : Collector.apply operation before = .error fault after)
      (next : operation.Answer → Program σ) (place : Place σ) (history : List (Happening σ)) :
      GivesUp ⟨before, .code place (.run (.call operation next)), history⟩ fault after
  | allocate {collector : Collector σ} {request : Request} {cost : Word} {fault : Fault}
      {heap : Heap σ} (failed : Heap.allocateNow request cost collector.heap = .error fault heap)
      (next : Except AllocError Ref → Program σ) (place : Place σ)
      (history : List (Happening σ)) :
      GivesUp ⟨collector, .code place (.allocate request cost next), history⟩ fault
        { collector with heap }
  | reclaim {collector : Collector σ} {fault : Fault} {heap : Heap σ}
      (idle : collector.heap.collecting = false)
      (failed : Heap.reclaim collector.heap = .error fault heap) (next : Code σ)
      (history : List (Happening σ)) :
      GivesUp ⟨collector, .code .outside (.collect next), history⟩ fault { collector with heap }
  | call {collector : Collector σ} {entry : FinalizerEntry}
      (missing : collector.queues[entry.queue.index]? = none) (cycle : Cycle)
      (waiting : List FinalizerEntry) (caller : Code σ) (history : List (Happening σ)) :
      GivesUp ⟨collector, .between ⟨cycle, entry :: waiting, caller⟩, history⟩
        (.missingQueue entry.queue collector.queues.size) collector

theorem GivesUp.result_eq {point : Point σ} {fault : Fault} {after : Collector σ}
    (h : GivesUp point fault after) : point.result = .error fault after := by
  cases h with
  | fail _ _ place history => exact result_of_error (fun collect => rfl) place history
  | operate plain failed next place history =>
    refine result_of_error (fun collect => ?_) place history
    rw [Collector.apply, Collector.perform_of_plain plain _ collect] at failed
    exact bind_of_error failed
  | allocate failed next place history =>
    have gives_up := Collector.onHeap_of_error failed
    exact result_of_error (fun collect => bind_of_error gives_up) place history
  | @reclaim collector fault heap idle failed next history =>
    have gives_up : Collector.collect collector = .error fault { collector with heap } := by
      rw [Collector.collect, get_bind]
      simp only [idle, Bool.false_eq_true, if_false]
      exact bind_of_error (Collector.onHeap_of_error failed)
    exact bind_of_error gives_up
  | @call _ entry missing cycle waiting caller history =>
    have gives_up : Collector.runFinalizer entry after =
        .error (.missingQueue entry.queue after.queues.size) after := by
      rw [Collector.runFinalizer, get_bind]
      simp only [missing]
      rfl
    have run := congrFun (Collection.resume_cons cycle entry waiting caller) after
    exact run.trans (bind_of_error gives_up)

theorem stuck_call {collector : Collector σ} {operation : Operation}
    {next : operation.Answer → Program σ} {place : Place σ} {history : List (Happening σ)}
    (stuck : Stuck ⟨collector, .code place (.run (.call operation next)), history⟩) :
    ∃ fault after,
      GivesUp ⟨collector, .code place (.run (.call operation next)), history⟩ fault after := by
  have plain_case (plain : operation.isPlain = true) : ∃ fault after,
      GivesUp ⟨collector, .code place (.run (.call operation next)), history⟩ fault after := by
    cases performed : Collector.apply operation collector with
    | ok answer after => exact (stuck _ (.code (.operate plain performed next) _ _)).elim
    | error fault after => exact ⟨fault, after, .operate plain performed next place history⟩
  cases operation with
  | allocate request =>
    exfalso
    cases accepted : request.accept collector.heap.types collector.queues.size with
    | error error => exact stuck _ (.code (.refuse accepted next) _ _)
    | ok cost =>
      by_cases large : ¬ request.isExternal ∧ collector.heap.exceedsThreshold cost
      · exact stuck _ (.code (.exceed accepted large next) _ _)
      · exact stuck _ (.code (.accept accepted large next) _ _)
  | collect => exact (stuck _ (.code (.collect collector next) _ _)).elim
  | addRoot | setRoot | removeRoot | reset | writeWord | writeRef | writePayload =>
    exact plain_case rfl

theorem stuck_collect {collector : Collector σ} {next : Code σ} {place : Place σ}
    {history : List (Happening σ)}
    (stuck : Stuck ⟨collector, .code place (.collect next), history⟩) :
    ∃ fault after, GivesUp ⟨collector, .code place (.collect next), history⟩ fault after := by
  cases busy : place.isCallback || collector.heap.collecting with
  | true => exact (stuck _ (.nested (by simpa using busy) next history)).elim
  | false =>
    rw [Bool.or_eq_false_iff] at busy
    cases place with
    | callback entry collection => cases busy.1
    | outside =>
      cases reclaimed : Heap.reclaim collector.heap with
      | ok cycle heap => exact (stuck _ (.reclaim busy.2 reclaimed next history)).elim
      | error fault heap => exact ⟨_, _, .reclaim busy.2 reclaimed next history⟩

theorem Stuck.cases {point : Point σ} (stuck : Stuck point) :
    point.stage = .code .outside (.run .done) ∨ ∃ fault after, GivesUp point fault after := by
  obtain ⟨collector, stage, history⟩ := point
  cases stage with
  | between collection =>
    right
    obtain ⟨cycle, waiting, caller⟩ := collection
    cases waiting with
    | nil => exact (stuck _ (.finish rfl caller history)).elim
    | cons entry waiting =>
      cases found : collector.queues[entry.queue.index]? with
      | some callback => exact (stuck _ (.call found cycle waiting caller history)).elim
      | none => exact ⟨_, _, .call found cycle waiting caller history⟩
  | code place code =>
    cases code with
    | allocate request cost next =>
      right
      cases answered : Heap.allocateNow request cost collector.heap with
      | ok answer heap => exact (stuck _ (.code (.allocate answered next) _ _)).elim
      | error fault heap => exact ⟨_, _, .allocate answered next place history⟩
    | collect next => exact .inr (stuck_collect stuck)
    | run program =>
      cases program with
      | done =>
        cases place with
        | outside => exact .inl rfl
        | callback entry collection =>
          exact (stuck _ (.return collector entry collection history)).elim
      | fail fault => exact .inr ⟨_, _, .fail collector fault place history⟩
      | call operation next => exact .inr (stuck_call stuck)
      | inspect next => exact (stuck _ (.code (.inspect collector next) _ _)).elim
      | addQueue callback next => exact (stuck _ (.code (.addQueue collector callback next) _ _)).elim
      | addScanner scan next => exact (stuck _ (.code (.addScanner collector scan next) _ _)).elim
      | host update next => exact (stuck _ (.code (.host collector update next) _ _)).elim
      | poke update next => exact (stuck _ (.code (.poke collector update next) _ _)).elim

theorem Point.reaches_end {point : Point σ} {after : Collector σ}
    (ended : point.result = .ok () after) : ∃ history,
      Relation.ReflTransGen Step point ⟨after, .code .outside (.run .done), history⟩ := by
  obtain ⟨last, run, stuck⟩ := halts point
  rw [← result_eq_of_reaches run] at ended
  rcases stuck.cases with finished | ⟨fault, collector, gives_up⟩
  · obtain ⟨collector, stage, history⟩ := last
    subst finished
    cases ended
    exact ⟨history, run⟩
  · rw [gives_up.result_eq] at ended
    cases ended

/-- A program ends well if and only if its steps lead to its end. -/
theorem Program.run_eq_ok_iff {program : Program σ} {before after : Collector σ} :
    program.run before = .ok () after ↔ ∃ history,
      Relation.ReflTransGen Step (.start before program)
        ⟨after, .code .outside (.run .done), history⟩ := by
  have whole : Point.result (.start before program) = program.run before := rfl
  refine ⟨fun ended => Point.reaches_end (whole.trans ended), ?_⟩
  rintro ⟨history, run⟩
  exact whole.symm.trans (result_eq_of_reaches run).symm

/-- A program gives up if and only if its steps lead to a point where something does. -/
theorem Program.run_eq_error_iff {program : Program σ} {before after : Collector σ}
    {fault : Fault} :
    program.run before = .error fault after ↔ ∃ last,
      Relation.ReflTransGen Step (.start before program) last ∧ GivesUp last fault after := by
  have whole : Point.result (.start before program) = program.run before := rfl
  constructor
  · intro h
    obtain ⟨last, run, stuck⟩ := halts_start before program
    have same := result_eq_of_reaches run
    rw [whole, h] at same
    rcases stuck.cases with finished | ⟨fault, collector, gives_up⟩
    · obtain ⟨collector, stage, history⟩ := last
      subst finished
      cases same
    · rw [gives_up.result_eq] at same
      cases same
      exact ⟨last, run, gives_up⟩
  · rintro ⟨last, run, gives_up⟩
    exact whole.symm.trans ((result_eq_of_reaches run).symm.trans gives_up.result_eq)

end Reclaim
