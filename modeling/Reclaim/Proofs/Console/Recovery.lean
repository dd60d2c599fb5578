import Reclaim.Proofs.Console.Refinement
import Reclaim.Proofs.Run.Refusals

namespace Reclaim.Console.Session

variable {μ α β : Type} {session after : Session μ}

def Inspects (command : CommandM μ α) : Prop :=
  Keeps id command.run

def Completes (command : CommandM μ α) : Prop :=
  ∀ ⦃session result after⦄, command.run session = .ok result after → ∃ value, result = .ok value

def Harmless (command : CommandM μ α) : Prop :=
  ∀ ⦃session error after⦄, command.run session = .ok (.error error) after →
    error.isRecoverable = true → after = session

section Parts

variable {command : CommandM μ α} {next : α → CommandM μ β} {action : SessionM μ α}

theorem onCollector_eq_ok {action : CollectorM (Reports μ) α} {value : α}
    (ran : onCollector action session = .ok value after) :
    ∃ collector, action session.collector = .ok value collector ∧
      after = { session with collector } := by
  rw [onCollector] at ran
  split at ran
  · rename_i acted
    cases ran
    exact ⟨_, acted, rfl⟩
  · cases ran

theorem run_lift_eq_ok {result : Except ConsoleError α}
    (ran : (ExceptT.lift action : CommandM μ α).run session = .ok result after) :
    ∃ value, result = .ok value ∧ action session = .ok value after := by
  change (Except.ok <$> action) session = _ at ran
  simp only [Functor.map, EStateM.map] at ran
  cases acted : action session with
  | ok value middle =>
    rw [acted] at ran
    cases ran
    exact ⟨value, rfl, rfl⟩
  | error fault middle =>
    rw [acted] at ran
    cases ran

theorem run_bind_eq_ok {result : Except ConsoleError β}
    (ran : (command >>= next).run session = .ok result after) :
    (∃ error, result = .error error ∧ command.run session = .ok (.error error) after) ∨
      ∃ value middle, command.run session = .ok (.ok value) middle ∧
        (next value).run middle = .ok result after := by
  obtain ⟨first, middle, began, ran⟩ := bind_eq_ok.mp ran
  cases first with
  | ok value => exact .inr ⟨value, middle, began, ran⟩
  | error error =>
    cases ran
    exact .inl ⟨error, rfl, began⟩

namespace Inspects

theorem pure (value : α) : Inspects (pure value : CommandM μ α) :=
  Keeps.pure _

theorem throw (error : ConsoleError) : Inspects (throw error : CommandM μ α) :=
  Keeps.pure _

theorem get_bind {next : Session μ → CommandM μ α} (rest : ∀ session, Inspects (next session)) :
    Inspects (get >>= next) := by
  intro session result after ran
  exact rest session ran

theorem bind (first : Inspects command) (rest : ∀ value, Inspects (next value)) :
    Inspects (command >>= next) := by
  intro session result after ran
  rcases run_bind_eq_ok ran with ⟨error, rfl, stopped⟩ | ⟨value, middle, began, ran⟩
  · exact first stopped
  · exact (rest value ran).trans (first began)

theorem look (read : Heap (Reports μ) → Except Fault α) :
    Inspects (ExceptT.lift (look read) : CommandM μ α) := by
  intro session result after ran
  obtain ⟨value, rfl, looked⟩ := run_lift_eq_ok ran
  obtain ⟨collector, checked, rfl⟩ := onCollector_eq_ok looked
  obtain ⟨checked, queues⟩ := Collector.onHeap_eq_ok checked
  have heap := (Heap.check_eq_ok.mp checked).2
  cases collector
  cases queues
  cases heap
  rfl

end Inspects

namespace Completes

theorem pure (value : α) : Completes (pure value : CommandM μ α) := by
  intro session result after ran
  cases ran
  exact ⟨value, rfl⟩

theorem lift (action : SessionM μ α) : Completes (ExceptT.lift action : CommandM μ α) := by
  intro session result after ran
  obtain ⟨value, same, _⟩ := run_lift_eq_ok ran
  exact ⟨value, same⟩

theorem get_bind {next : Session μ → CommandM μ α} (rest : ∀ session, Completes (next session)) :
    Completes (get >>= next) := by
  intro session result after ran
  exact rest session ran

theorem bind (first : Completes command) (rest : ∀ value, Completes (next value)) :
    Completes (command >>= next) := by
  intro session result after ran
  rcases run_bind_eq_ok ran with ⟨error, rfl, stopped⟩ | ⟨value, middle, _, ran⟩
  · obtain ⟨_, impossible⟩ := first stopped
    cases impossible
  · exact rest value ran

end Completes

namespace Harmless

theorem of_inspects (inspects : Inspects command) : Harmless command :=
  fun _ _ _ ran _ => inspects ran

theorem of_completes (completes : Completes command) : Harmless command := by
  intro session error after ran
  obtain ⟨value, impossible⟩ := completes ran
  cases impossible

theorem get_bind {next : Session μ → CommandM μ α} (rest : ∀ session, Harmless (next session)) :
    Harmless (get >>= next) := by
  intro session error after ran
  exact rest session ran

theorem after_reading (first : Inspects command) (rest : ∀ value, Harmless (next value)) :
    Harmless (command >>= next) := by
  intro session error after ran recoverable
  rcases run_bind_eq_ok ran with ⟨_, _, stopped⟩ | ⟨value, middle, began, ran⟩
  · exact first stopped
  · exact (rest value ran recoverable).trans (first began)

theorem then_completes (first : Harmless command) (rest : ∀ value, Completes (next value)) :
    Harmless (command >>= next) := by
  intro session error after ran recoverable
  rcases run_bind_eq_ok ran with ⟨_, ⟨⟩, stopped⟩ | ⟨value, middle, _, ran⟩
  · exact first stopped recoverable
  · obtain ⟨_, impossible⟩ := rest value ran
    cases impossible

end Harmless

end Parts

section Commands

theorem inspects_readNumber (word : String) : Inspects (readNumber word : CommandM μ Word) := by
  rw [readNumber]
  cases Text.readWord? word with
  | none => exact .throw _
  | some number => exact .pure number

theorem inspects_resolve (name : String) : Inspects (resolve name : CommandM μ Ref) := by
  apply Inspects.get_bind
  intro session
  cases session.bindings[name]?.bind session.heap.roots.get with
  | none => exact .throw _
  | some object => exact .pure object

theorem inspects_resolveTarget (name : String) :
    Inspects (resolveTarget name : CommandM μ (Option Ref)) := by
  rw [resolveTarget]
  split
  · exact .pure none
  · exact (inspects_resolve name).bind fun object => .pure (some object)

theorem inspects_slotOffset (name : String) (object : Ref) (word : String) :
    Inspects (slotOffset name object word : CommandM μ Word) := by
  apply (inspects_readNumber word).bind
  intro slot
  apply (Inspects.look _).bind
  intro offset
  cases offset with
  | none => exact .throw _
  | some offset => exact .pure offset

variable [RawMemory μ]

theorem harmless_allocate (request : Request) : Harmless (allocate request : CommandM μ Ref) := by
  intro session error after ran recoverable
  rcases run_bind_eq_ok ran with ⟨_, _, stopped⟩ | ⟨answer, middle, began, ran⟩
  · obtain ⟨_, impossible, _⟩ := run_lift_eq_ok stopped
    cases impossible
  · obtain ⟨_, ⟨⟩, applied⟩ := run_lift_eq_ok began
    cases answer with
    | ok object => cases ran
    | error reason =>
      cases ran
      obtain ⟨collector, refused, rfl⟩ := onCollector_eq_ok applied
      -- a block that was refused ends the run, so the request was not even admitted
      rcases Collector.refused_of_accept refused with ⟨_, rfl, _⟩ | ⟨_, rfl⟩
      · cases recoverable
      · rfl

theorem harmless_makeSized (kind : Kind) (item : Word) (name length : String) :
    Harmless (makeSized kind item name length : CommandM μ (List String)) := by
  apply Harmless.after_reading (inspects_readNumber length)
  intro length
  apply (harmless_allocate _).then_completes
  intro object
  exact (Completes.lift _).bind fun _ => .pure _

theorem harmless_run (command : Command) : Harmless (run command : CommandM μ (List String)) := by
  -- each command reads before it changes anything; after the first change it can only end the run
  cases command with
  | nothing => exact .of_completes (.pure _)
  | cell name =>
    apply (harmless_allocate _).then_completes
    exact fun object => (Completes.lift _).bind fun _ => .pure _
  | vector name length => exact harmless_makeSized _ _ _ _
  | blob name length => exact harmless_makeSized _ _ _ _
  | weak name target =>
    apply Harmless.after_reading (inspects_resolveTarget target)
    intro target
    apply (harmless_allocate _).then_completes
    intro object
    apply (Completes.lift _).bind
    exact fun _ => (Completes.lift _).bind fun _ => .get_bind fun _ => .pure _
  | finalizable name light =>
    apply (harmless_allocate _).then_completes
    exact fun object => (Completes.lift _).bind fun _ => .pure _
  | set name slot target =>
    apply Harmless.after_reading (inspects_resolve name)
    intro object
    apply Harmless.after_reading (inspects_slotOffset name object slot)
    intro offset
    apply Harmless.after_reading (inspects_resolveTarget target)
    intro target
    exact .of_completes ((Completes.lift _).bind fun _ => .get_bind fun _ => .pure _)
  | get name slot =>
    apply Harmless.after_reading (inspects_resolve name)
    intro object
    apply Harmless.after_reading (inspects_slotOffset name object slot)
    intro offset
    exact .of_completes ((Completes.lift _).bind fun _ => .get_bind fun _ => .pure _)
  | drop name =>
    apply Harmless.get_bind
    intro session
    cases session.bindings[name]? with
    | none => exact .of_inspects (.throw _)
    | some root =>
      apply Harmless.of_completes
      apply (Completes.lift (modify _)).bind
      exact fun _ => (Completes.lift _).bind fun _ => .pure _
  | roots => exact .of_completes (.get_bind fun _ => .pure _)
  | collect =>
    apply Harmless.of_completes
    exact .get_bind fun _ => (Completes.lift _).bind fun _ => .get_bind fun _ => .pure _
  | stats => exact .of_completes (.get_bind fun _ => .pure _)
  | help => exact .of_completes (.pure _)

end Commands

section Lines

variable [RawMemory μ] {line : String} {result : Except ConsoleError (List String)}

def labelsAfter (session middle : Session μ) : Std.TreeMap Ref String :=
  if middle.heap.stats.collections ≠ session.heap.stats.collections then
    middle.heap.host.labels.filter fun object _ => middle.heap.objects.contains object
  else middle.heap.host.labels

theorem execute_of_command {own : Except ConsoleError (List String)} {middle : Session μ}
    (ran : (command line).run session = .ok own middle) :
    execute line session = .ok (own.map fun lines => middle.heap.host.messages.toList ++ lines)
      (middle.finished (labelsAfter session middle)) := by
  have ran : ((do run (← Command.ofLine line)) : CommandM μ (List String)).run session =
      .ok own middle := ran
  rw [execute, get_bind, bind_of_ok ran, get_bind, labelsAfter]
  split <;> rfl

theorem execute_eq_ok (executed : execute line session = .ok result after) :
    ∃ own middle, (command line).run session = .ok own middle ∧
      result = own.map (fun lines => middle.heap.host.messages.toList ++ lines) ∧
      after = middle.finished (labelsAfter session middle) := by
  cases ran : (command line).run session with
  | error fault middle =>
    have ran : ((do run (← Command.ofLine line)) : CommandM μ (List String)).run session =
        .error fault middle := ran
    rw [execute, get_bind, bind_of_error ran] at executed
    cases executed
  | ok own middle =>
    rw [execute_of_command ran] at executed
    cases executed
    exact ⟨own, middle, rfl, rfl, rfl⟩

theorem messages_of_execute (executed : execute line session = .ok result after) :
    after.heap.host.messages = #[] := by
  obtain ⟨own, middle, _, _, rfl⟩ := execute_eq_ok executed
  rfl

theorem messages_of_lines {lines : List String}
    {results : List (Except ConsoleError (List String))}
    (ran : lines.mapM execute session = .ok results after)
    (empty : session.heap.host.messages = #[]) : after.heap.host.messages = #[] := by
  induction lines generalizing session results with
  | nil =>
    rw [List.mapM_nil] at ran
    cases ran
    exact empty
  | cons line rest ih =>
    rw [List.mapM_cons] at ran
    obtain ⟨_, middle, executed, ran⟩ := bind_eq_ok.mp ran
    obtain ⟨_, final, ran, last⟩ := bind_eq_ok.mp ran
    cases last
    exact ih ran (messages_of_execute executed)

theorem harmless_command (line : String) : Harmless (command line : CommandM μ (List String)) := by
  rw [command]
  cases Command.ofLine line with
  | error error => exact .of_inspects (.throw error)
  | ok command => exact harmless_run command

omit [RawMemory μ] in
theorem created_eq_started {growth : Growth} {memory : μ} (created : create growth memory = .ok session) :
    session = started growth memory := by
  rw [create] at created
  cases made : Collector.create Kind.types growth ({ memory } : Reports μ) with
  | error fault =>
    rw [made] at created
    cases created
  | ok collector =>
    rw [made] at created
    cases created
    rw [Collector.create_eq_ok made]
    rfl

/-- After any lines, a line that ends with an error to carry on from leaves the session as it was:
    the heap with its memory, its root table, its counters and the journal of its requests and
    collections, the bindings and the labels. There is no report waiting before it or after it. -/
theorem execute_eq_of_recoverable {growth : Growth} {memory : μ} {start : Session μ}
    {lines : List String} {results : List (Except ConsoleError (List String))} {error : ConsoleError}
    (created : create growth memory = .ok start)
    (ran : lines.mapM execute start = .ok results session)
    (executed : execute line session = .ok (.error error) after)
    (recoverable : error.isRecoverable = true) :
    after = session ∧ session.heap.host.messages = #[] := by
  have empty : session.heap.host.messages = #[] := by
    apply messages_of_lines ran
    rw [created_eq_started created]
    rfl
  refine ⟨?_, empty⟩
  obtain ⟨own, middle, ended, same, rfl⟩ := execute_eq_ok executed
  cases own with
  | ok lines => cases same
  | error reason =>
    cases same
    have unchanged : middle = session := harmless_command line ended recoverable
    subst unchanged
    rw [labelsAfter, if_neg (not_not_intro rfl), finished, ← empty]
    rfl

def errorOf (start : Session μ) (lines : List String) (line : String) : Option ConsoleError :=
  match lines.mapM execute start with
  | .ok _ session =>
    match execute line session with
    | .ok (.error error) _ => some error
    | _ => none
  | .error _ _ => none

theorem exists_of_errorOf {start : Session μ} {lines : List String} {error : ConsoleError}
    (ended : errorOf start lines line = some error) :
    ∃ results session after, lines.mapM execute start = .ok results session ∧
      execute line session = .ok (.error error) after := by
  rw [errorOf] at ended
  split at ended
  · rename_i results session ran
    split at ended
    · rename_i after executed
      cases ended
      exact ⟨results, session, after, ran, executed⟩
    · cases ended
  · cases ended

theorem execute_eq_of_recoverable_badSlot :
    ∃ (start session after : Session SystemMemory)
      (results : List (Except ConsoleError (List String))),
      create {} {} = .ok start ∧
      ["cell a", "finalizable f", "drop f"].mapM execute start = .ok results session ∧
      execute "set a 2 b" session = .ok (.error (.badSlot "a" 2)) after ∧
      (ConsoleError.badSlot "a" 2).isRecoverable = true ∧
      after = session ∧ session.heap.host.messages = #[] := by
  have created : create {} ({} : SystemMemory) = .ok (started {} {}) :=
    create_eq_ok (by decide +kernel) _
  have ended : errorOf (started {} ({} : SystemMemory)) ["cell a", "finalizable f", "drop f"]
      "set a 2 b" = some (.badSlot "a" 2) := by
    decide +kernel
  obtain ⟨results, session, after, ran, executed⟩ := exists_of_errorOf ended
  exact ⟨_, session, after, results, created, ran, executed, rfl,
    execute_eq_of_recoverable created ran executed rfl⟩

end Lines

end Reclaim.Console.Session
