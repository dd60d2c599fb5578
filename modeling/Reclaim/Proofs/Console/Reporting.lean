import Reclaim.Proofs.Console.Refinement

namespace Reclaim.Console

section Reports

def reportOf (seen : List Event) (entry : FinalizerEntry) : Option String :=
  (givenName seen entry.object).map fun name =>
    "finalized " ++ name ++ (if entry.light then " (light)" else "")

def reportsOf (seen : List Event) : List Event → List (Option String)
  | [] => []
  | event :: rest => (event.call?.map (reportOf seen)).toList ++ reportsOf (seen ++ [event]) rest

variable {seen events more : List Event}

theorem reportsOf_append : reportsOf seen (events ++ more) =
    reportsOf seen events ++ reportsOf (seen ++ events) more := by
  induction events generalizing seen with
  | nil =>
    rw [List.append_nil]
    rfl
  | cons event rest ih =>
    rw [List.cons_append, reportsOf, reportsOf, ih, List.append_assoc, List.append_assoc]
    rfl

theorem reportsOf_of_unnamed (unnamed : ∀ event ∈ events, ∀ o, event.naming? o = none) :
    reportsOf seen events = (finalizerCalls events).map (reportOf seen) := by
  induction events generalizing seen with
  | nil => rfl
  | cons event rest ih =>
    have same : reportOf (seen ++ [event]) = reportOf seen := by
      funext entry
      rw [reportOf, reportOf, givenName_append]
      intro other member
      rw [List.mem_singleton.mp member]
      exact unnamed event List.mem_cons_self _
    rw [reportsOf, ih fun other member => unnamed other (List.mem_cons_of_mem _ member), same]
    simp only [finalizerCalls, List.filterMap_cons]
    cases event.call? <;> rfl

theorem reportsOf_of_uncalled (uncalled : finalizerCalls events = []) :
    reportsOf seen events = [] := by
  induction events generalizing seen with
  | nil => rfl
  | cons event rest ih =>
    have none_called := List.filterMap_eq_nil_iff.mp uncalled
    have others := List.filterMap_eq_nil_iff.mpr fun other member =>
      none_called other (List.mem_cons_of_mem event member)
    rw [reportsOf, ih others, none_called event List.mem_cons_self]
    rfl

end Reports

namespace Session

variable {μ : Type} [RawMemory μ] {first : μ} {session : Session μ} {store : Store}

theorem Mirrored.reportsOf_eq (mirrored : Mirrored store session) (sound : Sound first session)
    {after : Heap (Reports μ)} {events : List Event}
    (reported : Reported session.heap after events) :
    reportsOf session.heap.journal.toList events =
      ((finalizerCalls events).map session.heap.host.lineFor).map some := by
  obtain ⟨place, mirrors⟩ := mirrored.mirrors
  obtain ⟨calling, others, rfl, unnamed, uncalled⟩ := reported.early
  have registered := reported.registered
  rw [finalizerCalls_append, uncalled, List.append_nil] at registered ⊢
  rw [reportsOf_append, reportsOf_of_unnamed unnamed, reportsOf_of_uncalled uncalled,
    List.append_nil, List.map_map]
  refine List.map_congr_left fun entry member => ?_
  have scheduled := registered entry member
  have depicted := mirrors.depicts entry.object
    (sound.upright.consistent.finalizers_mem _ (List.mem_map_of_mem scheduled))
  have weight : entry.queue = queueOf true ↔ entry.light = true := by
    rw [mirrored.weighed entry scheduled]
    cases entry.light <;> decide
  rw [reportOf, depicted.given, Option.map_some, Function.comp_apply, Reports.lineFor,
    Reports.nameOf, Std.TreeMap.getD_eq_getD_getElem?, depicted.label]
  simp only [weight, Option.getD_some]

structure Outcome where
  own : Except ConsoleError (List String)
  reports : List String

def Outcome.answer (outcome : Outcome) : Except ConsoleError (List String) :=
  outcome.own.map fun lines => outcome.reports ++ lines

/-- The reports that the answer contains: an error has none. -/
def Outcome.delivered (outcome : Outcome) : List String :=
  match outcome.own with
  | .ok _ => outcome.reports
  | .error _ => []

/-- The answers of a session to lines. The reports during a line are those of the finalizers that
    are called in the part of the journal that is written during that line. -/
inductive Dialogue : Session μ → List String → List Outcome → Session μ → Prop where
  | nil {session : Session μ} : Dialogue session [] [] session
  | cons {session middle next after : Session μ} {line : String} {lines : List String}
      {outcome : Outcome} {outcomes : List Outcome} {events : List Event}
      (command : (command line).run session = .ok outcome.own middle)
      (executed : execute line session = .ok outcome.answer next)
      (journal : next.heap.journal.toList = session.heap.journal.toList ++ events)
      (reports : reportsOf session.heap.journal.toList events = outcome.reports.map some)
      (rest : Dialogue next lines outcomes after) :
      Dialogue session (line :: lines) (outcome :: outcomes) after

structure Tallied (before after : Session μ) (outcomes : List Outcome) : Prop where
  counted : after.heap.stats.finalizersRun =
    before.heap.stats.finalizersRun + (outcomes.flatMap Outcome.reports).length
  dropped : ∀ outcome ∈ outcomes, outcome.delivered = outcome.reports ∨
    ((∃ reason, outcome.own = .error (.allocation (.allocationFailed reason))) ∧ Refused after.heap)
  refused : Refused before.heap → Refused after.heap

variable {lines : List String}

theorem exists_dialogue (fresh : RawMemory.Fresh first) (faithful : Faithful first lines session)
    (more : List String) :
    ∃ outcomes after, Dialogue session more outcomes after ∧ Tallied session after outcomes := by
  induction more generalizing lines session with
  | nil => exact ⟨[], session, .nil, rfl, nofun, id⟩
  | cons line rest ih =>
    obtain ⟨own, middle, next, events, continued⟩ := faithful.exists_continued fresh line
    obtain ⟨outcomes, after, dialogue, tallied⟩ := ih continued.faithful
    obtain ⟨labels, rfl⟩ := continued.finished
    have told := continued.reported.told
    have messages : middle.heap.host.messages.toList =
        (finalizerCalls events).map session.heap.host.lineFor := by
      rw [told.messages, faithful.taken]
      rfl
    obtain ⟨store, mirrored, _⟩ := faithful.mirrored
    -- the buffer was empty when the line began, so what is in it now was reported during the line
    let outcome : Outcome := ⟨own, middle.heap.host.messages.toList⟩
    refine ⟨outcome :: outcomes, after, .cons continued.answered.command continued.answered.execute
      told.journal ?_ dialogue, ?_, ?_, fun refused => ?_⟩
    · rw [mirrored.reportsOf_eq faithful.sound continued.reported, ← messages]
    · have total := tallied.counted
      have called : outcome.reports.length = (finalizerCalls events).length :=
        (congrArg List.length messages).trans (List.length_map _)
      have count := told.count
      change _ = middle.heap.stats.finalizersRun + _ at total
      rw [List.flatMap_cons, List.length_append]
      omega
    · refine List.forall_mem_cons.mpr ⟨?_, tallied.dropped⟩
      cases own with
      | ok lines => exact .inl rfl
      | error error =>
        rcases continued.errors error rfl with uncalled | ⟨⟨reason, same⟩, refused⟩
        · left
          rw [uncalled] at messages
          exact messages.symm
        · exact .inr ⟨⟨reason, congrArg Except.error same⟩, tallied.refused refused⟩
    · have still : Refused middle.heap := refused.mono told
      exact tallied.refused still

/-- What becomes of the reports during some lines. All that were made have been counted, and as long
    as the raw memory has granted all requests each of them is in the answer to the line it was made
    during. What was delivered differs from what was counted just if a finalizer was called during a
    line that ended with a refused request. -/
structure Delivers (session : Session μ) (lines : List String) (outcomes : List Outcome)
    (after : Session μ) : Prop where
  dialogue : Dialogue session lines outcomes after
  answers : lines.mapM execute session = .ok (outcomes.map Outcome.answer) after
  counted : after.heap.stats.finalizersRun = (outcomes.flatMap Outcome.reports).length
  granted : ¬ Refused after.heap → ∀ outcome ∈ outcomes, outcome.delivered = outcome.reports
  exact_iff : (outcomes.flatMap Outcome.delivered).length = after.heap.stats.finalizersRun ↔
    ∀ outcome ∈ outcomes, ∀ reason,
      outcome.own = .error (.allocation (.allocationFailed reason)) → outcome.reports = []

theorem Dialogue.answers {after : Session μ} {outcomes : List Outcome}
    (h : Dialogue session lines outcomes after) :
    lines.mapM execute session = .ok (outcomes.map Outcome.answer) after := by
  induction h with
  | nil =>
    rw [List.mapM_nil]
    rfl
  | cons _ executed _ _ _ ih =>
    rw [List.mapM_cons, bind_of_ok executed, bind_of_ok ih]
    rfl

theorem Outcome.delivered_of_error {outcome : Outcome} {error : ConsoleError}
    (failed : outcome.own = .error error) : outcome.delivered = [] := by
  rw [delivered, failed]

theorem length_delivered (outcomes : List Outcome) :
    (outcomes.flatMap Outcome.delivered).length ≤ (outcomes.flatMap Outcome.reports).length ∧
      ((outcomes.flatMap Outcome.delivered).length = (outcomes.flatMap Outcome.reports).length ↔
        ∀ outcome ∈ outcomes, outcome.delivered = outcome.reports) := by
  induction outcomes with
  | nil => exact ⟨Nat.le_refl _, fun _ => nofun, fun _ => rfl⟩
  | cons outcome rest ih =>
    obtain ⟨less, equal⟩ := ih
    rw [List.forall_mem_cons, ← equal, List.flatMap_cons, List.flatMap_cons, List.length_append,
      List.length_append]
    have kept : outcome.delivered = outcome.reports ∨ outcome.delivered = [] := by
      cases answer : outcome.own with
      | ok lines => exact .inl (by rw [Outcome.delivered, answer])
      | error error => exact .inr (Outcome.delivered_of_error answer)
    rcases kept with same | dropped
    · rw [same, and_iff_right rfl]
      exact ⟨by omega, by omega⟩
    · rw [dropped, List.length_nil, eq_comm (a := []), ← List.length_eq_zero_iff]
      exact ⟨by omega, by omega⟩

theorem exists_delivers (fresh : RawMemory.Fresh first) (faithful : Faithful first [] session)
    (unused : session.heap.stats.finalizersRun = 0) (lines : List String) :
    ∃ outcomes after, Delivers session lines outcomes after := by
  obtain ⟨outcomes, after, dialogue, tallied⟩ := exists_dialogue fresh faithful lines
  have counted := tallied.counted
  rw [unused, Nat.zero_add] at counted
  refine ⟨outcomes, after, dialogue, dialogue.answers, counted, ?_, ?_⟩
  · intro granted outcome member
    exact (tallied.dropped outcome member).resolve_right fun lost => granted lost.2
  · rw [counted, (length_delivered outcomes).2]
    refine forall₂_congr fun outcome member => ⟨fun same reason failed => ?_, fun unmade => ?_⟩
    · rw [← same, Outcome.delivered_of_error failed]
    · rcases tallied.dropped outcome member with same | ⟨⟨reason, failed⟩, _⟩
      · exact same
      · rw [Outcome.delivered_of_error failed, unmade reason failed]

/-- Reports in a session over a raw memory that keeps its side of the contract. -/
theorem create_delivers (growth : Growth) (memory : μ) (valid : growth.isValid = true)
    (fresh : RawMemory.Fresh memory) :
    ∃ session, create growth memory = .ok session ∧
      ∀ lines, ∃ outcomes after, Delivers session lines outcomes after :=
  ⟨_, create_eq_ok valid memory,
    exists_delivers fresh (faithful_started growth memory) rfl⟩

theorem create_delivers_system :
    ({} : Growth).isValid = true ∧ RawMemory.Fresh ({} : SystemMemory) ∧
      ∃ session : Session SystemMemory, create {} {} = .ok session ∧
        ∀ lines, ∃ outcomes after, Delivers session lines outcomes after :=
  ⟨by decide +kernel, SystemMemory.fresh {},
    create_delivers {} ({} : SystemMemory) (by decide +kernel) (SystemMemory.fresh {})⟩

/-- A report that never comes: the finalizer is called by the collection before a request that the
    raw memory refuses. -/
theorem report_lost : (create {} ({} : SystemMemory)).toOption.map (fun session =>
    let lines := ["finalizable f", "drop f", "blob v 2305843009213693951", "roots"]
    match lines.mapM execute session with
    | .ok results after => (results.map Except.toOption, after.heap.stats.finalizersRun)
    | .error _ _ => ([], 0)) =
    some ([some ["f = finalizable cell"], some ["dropped f"], none, some []], 1) := by
  decide +kernel

end Session

end Reclaim.Console
