import Reclaim.Proofs.Run.Soundness

namespace Reclaim

variable {σ : Type} [RawMemory σ]

omit [RawMemory σ] in
def Collector.final {α : Type} : EStateM.Result Fault (Collector σ) α → Collector σ
  | .ok _ collector => collector
  | .error _ collector => collector

omit [RawMemory σ] in
def Collector.granted? :
    EStateM.Result Fault (Collector σ) (Except AllocError Ref) → Option Ref
  | .ok (.ok object) _ => some object
  | _ => none

omit [RawMemory σ] in
theorem Collector.exists_of_granted? {result : EStateM.Result Fault (Collector σ) (Except AllocError Ref)}
    {object : Ref} (granted : granted? result = some object) :
    ∃ after, result = .ok (.ok object) after := by
  unfold granted? at granted
  split at granted
  · cases granted
    exact ⟨_, rfl⟩
  · cases granted

def Code.next? (collector : Collector σ) :
    Code σ → Option (List (Happening σ) × Collector σ × Code σ)
  | .run .done | .run (.fail _) | .collect _ => none
  | .run (.inspect next) => some ([], collector, .run (next collector.heap))
  | .run (.call .collect next) => some ([], collector, .collect (.run (next ())))
  | .run (.call (.allocate request) next) =>
    match request.accept collector.heap.types collector.queues.size with
    | .error error => some ([], collector, .run (next (.error error)))
    | .ok cost =>
      if ¬ request.isExternal ∧ collector.heap.exceedsThreshold cost then
        let heap := collector.heap.record (.logged
          (.thresholdExceeded cost collector.heap.heapSize collector.heap.threshold))
        some ([], { collector with heap }, .collect (.allocate request cost next))
      else some ([], collector, .allocate request cost next)
  | .run (.call operation next) =>
    match Collector.apply operation collector with
    | .ok answer after =>
      some (Happening.ofOperation collector.heap operation, after, .run (next answer))
    | .error _ _ => none
  | .run (.addQueue callback next) =>
    some ([], { collector with queues := collector.queues.push callback },
      .run (next ⟨collector.queues.size⟩))
  | .run (.addScanner scan next) =>
    let heap := { collector.heap with scanners := collector.heap.scanners.push scan }
    some ([], { collector with heap }, .run next)
  | .run (.host update next) =>
    let heap := { collector.heap with host := update collector.heap.host }
    some ([], { collector with heap }, .run next)
  | .run (.poke update next) =>
    let heap := { collector.heap with memory := update collector.heap.memory }
    some ([], { collector with heap }, .run next)
  | .allocate request cost next =>
    match Heap.allocateNow request cost collector.heap with
    | .ok answer heap =>
      some (Happening.ofAnswer collector request answer, { collector with heap },
        .run (next answer))
    | .error _ _ => none

theorem Code.next?_of_plain {collector : Collector σ} {operation : Operation}
    (plain : operation.isPlain = true) (next : operation.Answer → Program σ) :
    Code.next? collector (.run (.call operation next)) =
      match Collector.apply operation collector with
      | .ok answer after =>
        some (Happening.ofOperation collector.heap operation, after, .run (next answer))
      | .error _ _ => none := by
  cases operation <;> first | rfl | cases plain

theorem codeStep_iff {before after : Collector σ} {code rest : Code σ}
    {new : List (Happening σ)} :
    CodeStep before code new after rest ↔ code.next? before = some (new, after, rest) := by
  constructor
  · intro step
    cases step with
    | operate plain performed next => rw [Code.next?_of_plain plain, performed]
    | refuse refused next => simp only [Code.next?, refused]
    | accept accepted small next => simp only [Code.next?, accepted, if_neg small]
    | exceed accepted large next => simp only [Code.next?, accepted, if_pos large]
    | allocate answered next => simp only [Code.next?, answered]
    | inspect | collect | addQueue | addScanner | host | poke => rfl
  · intro taken
    cases code with
    | collect next => cases taken
    | allocate request cost next =>
      rw [Code.next?] at taken
      split at taken
      · rename_i answered
        cases taken
        exact .allocate answered next
      · cases taken
    | run program =>
      cases program with
      | done | fail => cases taken
      | inspect | addQueue | addScanner | host | poke =>
        cases taken
        constructor
      | call operation next =>
        cases operation with
        | collect =>
          cases taken
          exact .collect before next
        | allocate request =>
          rw [Code.next?] at taken
          split at taken
          · rename_i refused
            cases taken
            exact .refuse refused next
          · rename_i accepted
            split at taken <;> rename_i size <;> cases taken
            · exact .exceed accepted size next
            · exact .accept accepted size next
        | addRoot | setRoot | removeRoot | reset | writeWord | writeRef | writePayload =>
          rw [Code.next?_of_plain rfl] at taken
          split at taken
          · rename_i performed
            cases taken
            exact .operate rfl performed next
          · cases taken

namespace Point

def next? : Point σ → Option (Point σ)
  | ⟨collector, .code place code, history⟩ =>
    match code.next? collector, place, code with
    | some (new, after, rest), place, _ => some ⟨after, .code place rest, history ++ new⟩
    | none, .callback entry collection, .run .done =>
      let heap := { collector.heap with stats := collector.heap.stats.countFinalizer entry }
      some ⟨{ collector with heap }, .between collection, history ++ [.returned entry]⟩
    | none, place, .collect next =>
      if place.isCallback = true ∨ collector.heap.collecting = true then
        let heap := collector.heap.record (.logged .alreadyCollecting)
        some ⟨{ collector with heap }, .code place next, history⟩
      else
        match Heap.reclaim collector.heap with
        | .ok cycle heap =>
          some ⟨{ collector with heap }, .between ⟨cycle, cycle.scheduled, next⟩,
            history ++ Happening.ofCycle collector.heap cycle heap⟩
        | .error _ _ => none
    | none, _, _ => none
  | ⟨collector, .between ⟨cycle, entry :: waiting, caller⟩, history⟩ =>
    match collector.queues[entry.queue.index]? with
    | some callback =>
      let heap := collector.heap.record (.logged (.runningFinalizer entry))
      some ⟨{ collector with heap },
        .code (.callback entry ⟨cycle, waiting, caller⟩) (.run (callback entry.object)),
        history ++ [.called entry callback]⟩
    | none => none
  | ⟨collector, .between ⟨cycle, [], caller⟩, history⟩ =>
    match Heap.finish cycle collector.heap with
    | .ok _ heap => some ⟨{ collector with heap }, .code .outside caller, history⟩
    | .error _ _ => none

theorem step_iff {point next : Point σ} : Step point next ↔ point.next? = some next := by
  constructor
  · intro step
    cases step with
    | code step place history => simp only [next?, codeStep_iff.mp step]
    | nested busy next history => simp only [next?, Code.next?, if_pos busy]
    | @reclaim collector cycle heap idle reclaimed next history =>
      simp [next?, Code.next?, Place.isCallback, idle, reclaimed]
    | call found cycle waiting caller history => simp only [next?, found]
    | «return» => rfl
    | finish finished caller history => simp only [next?, finished]
  · intro taken
    obtain ⟨collector, stage, history⟩ := point
    cases stage with
    | between collection =>
      obtain ⟨cycle, waiting, caller⟩ := collection
      cases waiting with
      | nil =>
        cases taken
        exact .finish rfl caller history
      | cons entry waiting =>
        rw [next?] at taken
        split at taken
        · rename_i found
          cases taken
          exact .call found cycle waiting caller history
        · cases taken
    | code place code =>
      cases stepped : code.next? collector with
      | some step =>
        obtain ⟨new, after, rest⟩ := step
        simp only [next?, stepped] at taken
        cases taken
        exact .code (codeStep_iff.mpr stepped) place history
      | none =>
        cases code with
        | allocate request cost rest => cases place <;> simp [next?, stepped] at taken
        | collect rest =>
          simp only [next?, Code.next?] at taken
          by_cases busy : place.isCallback = true ∨ collector.heap.collecting = true
          · rw [if_pos busy] at taken
            cases taken
            exact .nested busy rest history
          · rw [if_neg busy] at taken
            obtain ⟨outside, idle⟩ := not_or.mp busy
            split at taken
            · rename_i reclaimed
              cases taken
              cases place with
              | outside => exact .reclaim (Bool.eq_false_iff.mpr idle) reclaimed rest history
              | callback => exact absurd rfl outside
            · cases taken
        | run program =>
          cases program with
          | done =>
            cases place with
            | outside => cases taken
            | callback entry collection =>
              cases taken
              exact .return ..
          | fail | inspect | call | addQueue | addScanner | host | poke =>
            cases place <;> simp [next?, stepped] at taken

def after : Nat → Point σ → Point σ
  | 0, point => point
  | steps + 1, point =>
    match point.next? with
    | some next => after steps next
    | none => point

theorem reaches_after (steps : Nat) (point : Point σ) :
    Relation.ReflTransGen Step point (after steps point) := by
  induction steps generalizing point with
  | zero => exact .refl
  | succ steps ih =>
    rw [after]
    split
    · rename_i next taken
      exact .head (step_iff.mpr taken) (ih next)
    · exact .refl

def always (holds : Point σ → Bool) : Nat → Point σ → Bool
  | 0, _ => false
  | steps + 1, point =>
    holds point && match point.next? with
      | some next => always holds steps next
      | none => true

theorem holds_of_always {holds : Point σ → Bool} {steps : Nat} {point later : Point σ}
    (whole : point.always holds steps = true) (run : Relation.ReflTransGen Step point later) :
    holds later = true := by
  induction steps generalizing point with
  | zero => cases whole
  | succ steps ih =>
    rw [always, Bool.and_eq_true] at whole
    obtain ⟨first, rest⟩ := whole
    rcases Relation.ReflTransGen.cases_head run with rfl | ⟨next, step, run⟩
    · exact first
    · rw [step_iff.mp step] at rest
      exact ih rest run

end Point

theorem Runs.of_kept {contract : Point σ → Prop} {point last : Point σ}
    (kept : ∀ later, Relation.ReflTransGen Step point later → contract later)
    (run : Relation.ReflTransGen Step point last) : Runs contract point last := by
  induction run with
  | refl => exact .refl
  | tail reached step ih => exact ih.tail ⟨kept _ reached, step⟩

/-- A run whose points have been checked. -/
theorem Runs.to_after {contract : Point σ → Prop} [DecidablePred contract] {point : Point σ}
    {bound : Nat} (whole : point.always (fun later => decide (contract later)) bound = true)
    (steps : Nat) : Runs contract point (point.after steps) :=
  .of_kept (fun _ reached => of_decide_eq_true (Point.holds_of_always whole reached))
    (Point.reaches_after steps point)

end Reclaim
