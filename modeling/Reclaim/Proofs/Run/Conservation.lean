import Reclaim.Proofs.Run.Finalization
import Reclaim.Proofs.Run.Outcomes

namespace Reclaim

variable {σ : Type}

/-- What an observer has counted since the heap was made or last reset. -/
structure Tally where
  objects : Nat := 0
  bytes : Nat := 0
  finalizable : Nat := 0
  light : Nat := 0
  collections : Nat := 0
  deriving DecidableEq

def Tally.grant (tally : Tally) (request : Request) (cost : Word) : Tally :=
  if request.isExternal then tally
  else
    { tally with
      objects := tally.objects + 1
      bytes := tally.bytes + cost.toNat
      finalizable := tally.finalizable + request.finalizer.toList.length
      light := tally.light + request.finalizer.toList.countP Finalizer.light }

def Tally.after [RawMemory σ] (tally : Tally) (point : Point σ) : Tally :=
  match point.stage with
  | .code _ (.run (.call .reset _)) => {}
  | .code _ (.collect _) =>
    if point.collector.heap.collecting then tally
    else { tally with collections := tally.collections + 1 }
  | .code _ (.allocate request cost _) =>
    match Heap.allocateNow request cost point.collector.heap with
    | .ok (.ok _) _ => tally.grant request cost
    | _ => tally
  | _ => tally

inductive Tallied [RawMemory σ] (first : Point σ) : Point σ → Tally → Prop
  | start : Tallied first first {}
  | step {point next : Point σ} {tally : Tally} (counted : Tallied first point tally)
      (lawful : point.Lawful) (step : Step point next) : Tallied first next (tally.after point)

/-- The counters of a heap and its registries make up what was counted; `due` are the finalizers
    that are scheduled and have not returned. -/
structure Heap.Balances (heap : Heap σ) (tally : Tally) (due : List FinalizerEntry) : Prop where
  objects : tally.objects = heap.objects.size + heap.stats.objectsFreed
  bytes : tally.bytes = heap.heapSize.toNat + heap.stats.bytesFreed
  finalizable : tally.finalizable = heap.finalizers.size + due.length + heap.stats.finalizersRun
  light : tally.light = heap.finalizers.toList.countP FinalizerEntry.light +
    due.countP FinalizerEntry.light + heap.stats.lightFinalizersRun
  collections : tally.collections = heap.stats.collections

theorem Request.length_entries (request : Request) (object : Ref) :
    (request.entries object).length = request.finalizer.toList.length := by
  rw [entries]
  cases request.finalizer <;> rfl

theorem Request.light_entries (request : Request) (object : Ref) :
    (request.entries object).countP FinalizerEntry.light =
      request.finalizer.toList.countP Finalizer.light := by
  rw [entries]
  cases request.finalizer <;> rfl

theorem Heap.length_reached_unreached (heap : Heap σ) :
    heap.reached.length + heap.unreached.length = heap.objects.toList.length := by
  classical
  have split := List.length_eq_length_filter_add (l := heap.objects.toList)
    fun o => decide (heap.Retained o)
  simpa only [reached, unreached, decide_not] using split.symm

namespace Heap.Balances

variable {before after : Heap σ} {tally : Tally} {due : List FinalizerEntry}

theorem congr (balances : before.Balances tally due) (objects : after.objects = before.objects)
    (finalizers : after.finalizers = before.finalizers) (heapSize : after.heapSize = before.heapSize)
    (stats : after.stats = before.stats) : after.Balances tally due where
  objects := by rw [objects, stats, balances.objects]
  bytes := by rw [heapSize, stats, balances.bytes]
  finalizable := by rw [finalizers, stats, balances.finalizable]
  light := by rw [finalizers, stats, balances.light]
  collections := by rw [stats, balances.collections]

theorem countFinalizer {entry : FinalizerEntry} (balances : before.Balances tally (entry :: due)) :
    Heap.Balances { before with stats := before.stats.countFinalizer entry } tally due := by
  have finalizable := balances.finalizable
  have light := balances.light
  have one : (if entry.light then 1 else 0) = entry.light.toNat := by cases entry.light <;> rfl
  rw [List.length_cons] at finalizable
  rw [List.countP_cons, one] at light
  refine ⟨balances.objects, balances.bytes, ?_, ?_, balances.collections⟩
  · simp only [Stats.countFinalizer]
    omega
  · simp only [Stats.countFinalizer]
    omega

variable [RawMemory σ]

theorem grant {request : Request} {cost : Word} {object : Ref}
    (balances : before.Balances tally due) (granted : before.Granted after request cost object) :
    after.Balances (tally.grant request cost) due := by
  have objects := congrArg List.length granted.objects
  have finalizers := congrArg List.length granted.finalizers
  have light := congrArg (List.countP FinalizerEntry.light) granted.finalizers
  have heapSize := granted.heapSize
  rw [List.length_append, Array.length_toList, Array.length_toList] at objects finalizers
  rw [request.length_entries] at finalizers
  rw [List.countP_append, request.light_entries] at light
  obtain ⟨counted, held, pending, lights, collections⟩ := balances
  rw [Tally.grant]
  cases external : request.isExternal with
  | true =>
    have plain : request.finalizer = none := by
      cases request with
      | fixed | varsize => cases external
      | external => rfl
    simp only [external, plain, if_true, Option.toList_none, List.length_nil, List.countP_nil,
      Nat.add_zero] at objects finalizers light heapSize ⊢
    refine ⟨?_, ?_, ?_, ?_, ?_⟩ <;> rw [granted.stats] <;> omega
  | false =>
    simp only [external, Bool.false_eq_true, if_false, List.length_singleton] at objects heapSize ⊢
    refine ⟨?_, ?_, ?_, ?_, ?_⟩ <;> rw [granted.stats] <;> dsimp only <;> omega

theorem reclaim {cycle : Cycle} (balances : before.Balances tally [])
    (h : before.Reclaimed cycle after) :
    after.Balances { tally with collections := tally.collections + 1 } cycle.scheduled := by
  have objects := before.length_reached_unreached
  have heapSize := h.heapSize
  have finalizers := h.divides.perm.length_eq
  have light := h.divides.perm.countP_eq FinalizerEntry.light
  rw [← h.objects, ← h.freed, Array.length_toList, Array.length_toList] at objects
  rw [← h.freedBytes] at heapSize
  rw [List.length_append, Array.length_toList, Array.length_toList] at finalizers
  rw [List.countP_append] at light
  obtain ⟨counted, held, pending, lights, collections⟩ := balances
  rw [List.length_nil] at pending
  rw [List.countP_nil] at lights
  refine ⟨?_, ?_, ?_, ?_, ?_⟩ <;> rw [h.stats] <;> simp only [Stats.count] <;> omega

theorem reset (consistent : before.Consistent) (run : Heap.reset before = .ok () after) :
    after.Balances {} [] := by
  have cleared := Heap.cleared_of_reset consistent.sized run
  refine ⟨?_, ?_, ?_, ?_, ?_⟩ <;> rw [Heap.stats_of_reset run]
  · rw [cleared.objects]
    rfl
  · rw [cleared.heapSize]
    rfl
  · rw [cleared.finalizers]
    rfl
  · rw [cleared.finalizers]
    rfl

end Heap.Balances

variable [RawMemory σ]

theorem CodeStep.balances {before after : Collector σ} {code rest : Code σ}
    {new : List (Happening σ)} {tally : Tally} {due : List FinalizerEntry}
    (step : CodeStep before code new after rest) (consistent : before.heap.Consistent)
    (idle : before.heap.collecting = false → due = [])
    (lawful : code.Lawful before.heap) (balances : before.heap.Balances tally due)
    (place : Place σ) (history : List (Happening σ)) :
    after.heap.Balances (tally.after ⟨before, .code place code, history⟩) due := by
  cases step with
  | @operate _ operation answer plain performed next =>
    rcases Collector.apply_eq_ok plain performed with ⟨rfl, reset⟩ | ⟨other, roots, memory, rfl⟩
    · obtain ⟨run, _⟩ := Collector.onHeap_eq_ok reset
      have cleared := Heap.cleared_of_reset consistent.sized run
      -- the tally starts again, so no finalizer of an earlier collection may still be due
      rw [idle cleared.idle]
      exact .reset consistent run
    · have settled : Heap.Balances { before.heap with roots, memory } tally due :=
        balances.congr rfl rfl rfl rfl
      cases operation with
      | allocate | collect => cases plain
      | reset => exact absurd rfl other
      | addRoot | setRoot | removeRoot | writeWord | writeRef | writePayload => exact settled
  | allocate answered next =>
    simp only [Tally.after, answered]
    rcases Heap.allocateNow_eq_ok answered with ⟨error, rfl, _⟩ | ⟨object, rfl, granted⟩
    · obtain ⟨reason, host, _, _, rfl⟩ := Heap.allocateNow_eq_refused answered
      exact balances.congr rfl rfl rfl rfl
    · exact balances.grant granted
  | inspect | collect | refuse | accept | addQueue => exact balances
  | exceed | addScanner | host => exact balances.congr rfl rfl rfl rfl
  | poke update next => exact lawful.elim

omit [RawMemory σ] in
theorem Stage.entries_code (place : Place σ) (code rest : Code σ) :
    (Stage.code place rest).entries = (Stage.code place code).entries := by
  cases place <;> rfl

omit [RawMemory σ] in
theorem Sound.entries_of_idle {point : Point σ} (sound : Sound point)
    (idle : point.collector.heap.collecting = false) : point.stage.entries = [] := by
  rw [sound.collecting] at idle
  obtain ⟨collector, stage, history⟩ := point
  -- finalizers are due only at stages of a running collection
  cases stage with
  | between collection => cases idle
  | code place code =>
    cases place with
    | outside => rfl
    | callback entry collection => cases idle

theorem Heap.Balances.step {point next : Point σ} {tally : Tally} (sound : Sound point)
    (lawful : point.Lawful) (step : Step point next)
    (balances : point.collector.heap.Balances tally point.stage.entries) :
    next.collector.heap.Balances (tally.after point) next.stage.entries := by
  cases step with
  | @code before after code rest new step place history =>
    simp only [Stage.entries_code place code rest]
    exact step.balances sound.consistent sound.entries_of_idle lawful balances place history
  | @nested collector place busy next history =>
    have collecting : collector.heap.collecting = true := by
      rcases busy with callback | collecting
      · rw [sound.collecting]
        cases place with
        | outside => cases callback
        | callback entry collection => rfl
      · exact collecting
    simp only [Tally.after, collecting, if_true, Stage.entries_code place (.collect next) next]
    exact balances.congr rfl rfl rfl rfl
  | reclaim idle reclaimed next history =>
    have h := Heap.reclaimed_of_ok sound.consistent (lawful idle) reclaimed
    simp only [Tally.after, idle, Bool.false_eq_true, if_false]
    exact balances.reclaim h
  | call found cycle waiting caller history => exact balances.congr rfl rfl rfl rfl
  | «return» collector entry collection history => exact balances.countFinalizer
  | finish finished caller history =>
    cases finished
    exact balances.congr rfl rfl rfl rfl

theorem Tallied.runs {first point : Point σ} {tally : Tally} (counted : Tallied first point tally) :
    Runs Point.Lawful first point := by
  induction counted with
  | start => exact .refl
  | step _ lawful step ih => exact ih.tail ⟨lawful, step⟩

theorem Tallied.exists_of_runs {first point : Point σ} (run : Runs Point.Lawful first point) :
    ∃ tally, Tallied first point tally := by
  induction run with
  | refl => exact ⟨{}, .start⟩
  | tail _ step ih =>
    obtain ⟨tally, counted⟩ := ih
    exact ⟨_, counted.step step.1 step.2⟩

theorem Tallied.balances {first point : Point σ} {tally : Tally} (sound : Sound first)
    (balances : first.collector.heap.Balances {} first.stage.entries)
    (counted : Tallied first point tally) :
    point.collector.heap.Balances tally point.stage.entries := by
  induction counted with
  | start => exact balances
  | step counted lawful step ih => exact ih.step (sound.of_runs counted.runs) lawful step

/-- At every point of a run that keeps the contract the books balance, where the finalizers that are
    scheduled and have not returned count as due. When no collection is running, none is. -/
theorem Runs.books_balance {types : TypeTable} (valid : types.Valid) (growth : Growth) (host : σ)
    (program : Program σ) {point : Point σ}
    (run : Runs Point.Lawful (.start { heap := { growth, types, host } } program) point) :
    (∃ tally, Tallied (.start { heap := { growth, types, host } } program) point tally) ∧
    ∀ tally, Tallied (.start { heap := { growth, types, host } } program) point tally →
      point.collector.heap.Balances tally point.stage.entries ∧
      (point.collector.heap.collecting = false → point.collector.heap.Balances tally []) := by
  have start := Sound.start valid growth host program
  refine ⟨Tallied.exists_of_runs run, fun tally counted => ?_⟩
  have balances := Tallied.balances start ⟨rfl, rfl, rfl, rfl, rfl⟩ counted
  refine ⟨balances, fun idle => ?_⟩
  rwa [(start.of_runs run).entries_of_idle idle] at balances

theorem Runs.books_balance_farewell : ∃ point : Point SystemMemory,
    .lowest ∈ point.collector.heap.objects.toList ∧ point.collector.heap.collecting = false ∧
    (∃ tally, Tallied (.start { heap := .noNode } .parting) point tally) ∧
    ∀ tally, Tallied (.start { heap := .noNode } .parting) point tally →
      point.collector.heap.Balances tally point.stage.entries ∧
      (point.collector.heap.collecting = false → point.collector.heap.Balances tally []) := by
  obtain ⟨collector, cycle, entry, run, registered⟩ := Program.returns_parting
  have ended := run.tail ⟨trivial, .finish rfl _ _⟩
  exact ⟨_, registered, rfl,
    Runs.books_balance TypeTable.valid_nodes {} ({} : SystemMemory) .parting ended⟩

end Reclaim
