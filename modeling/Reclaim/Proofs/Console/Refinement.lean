import Reclaim.Proofs.Console.Commands

namespace Reclaim.Console.Session

variable {μ : Type} [RawMemory μ] {first : μ} {session : Session μ} {store : Store}

section Lines

def finished (labels : Std.TreeMap Ref String) (session : Session μ) : Session μ where
  collector :=
    { heap := { session.heap with host := { session.heap.host with labels, messages := #[] } }
      queues := session.collector.queues }
  bindings := session.bindings

theorem exists_execute {line : String} {own : Except ConsoleError (List String)}
    {middle : Session μ} (ran : (command line).run session = .ok own middle) :
    ∃ labels, execute line session =
        .ok (own.map fun lines => middle.heap.host.messages.toList ++ lines)
          (middle.finished labels) ∧
      ∀ o ∈ middle.heap.objects.toList, labels[o]? = middle.heap.host.labels[o]? := by
  have ran : ((do run (← Command.ofLine line)) : CommandM μ (List String)).run session =
      .ok own middle := ran
  rw [execute, get_bind, bind_of_ok ran, get_bind]
  split
  · refine ⟨middle.heap.host.labels.filter fun object _ => middle.heap.objects.contains object,
      rfl, ?_⟩
    intro o member
    have registered : o ∈ middle.heap.objects := Array.mem_toList_iff.mp member
    rw [Std.TreeMap.getElem?_filter']
    cases middle.heap.host.labels[o]? with
    | none => rfl
    | some label => simp [registered]
  · exact ⟨middle.heap.host.labels, rfl, fun _ _ => rfl⟩

theorem Sound.finished (sound : Sound first session) (labels : Std.TreeMap Ref String) :
    Sound first (session.finished labels) := by
  rw [Session.finished, sound.callbacks]
  exact sound.with_host _ rfl

omit [RawMemory μ] in
theorem Mirrored.finished (mirrored : Mirrored store session) {labels : Std.TreeMap Ref String}
    (kept : ∀ o ∈ session.heap.objects.toList, labels[o]? = session.heap.host.labels[o]?) :
    Mirrored store (session.finished labels) := by
  obtain ⟨place, mirrors⟩ := mirrored.mirrors
  refine ⟨mirrored.weighed, place, mirrors.of_lasts (fun _ member => member) ?_ fun _ => rfl⟩
  exact fun o member => ⟨Kind.kept_of_memory rfl, kept o member, rfl⟩

theorem exists_command (fresh : RawMemory.Fresh first) (sound : Sound first session)
    (mirrored : Mirrored store session) (line : String) :
    ∃ own middle events, (command line).run session = .ok own middle ∧ Sound first middle ∧
      Reported session.heap middle.heap events ∧
      ((store.Allows line own ∧ Mirrored (store.next line) middle ∧
          ∀ error, own = .error error → finalizerCalls events = []) ∨
        ((∃ error, own = .error (.allocation (.allocationFailed error))) ∧ Refused middle.heap ∧
          Mirrored store middle)) := by
  rw [Store.next, Store.command, command]
  cases read : Command.ofLine line with
  | error error =>
    exact ⟨.error error, session, [], rfl, sound, .refl,
      .inl ⟨(Store.allows_of_unread read).mpr rfl, mirrored, fun _ _ => rfl⟩⟩
  | ok command =>
    simp only [Store.allows_of_read read]
    exact simulates_run fresh sound mirrored command

/-- What is true of a session after some lines: nothing is left to be reported, and unless the raw
    memory has refused a request the session looks like the store after these lines. -/
structure Faithful (first : μ) (lines : List String) (session : Session μ) : Prop where
  sound : Sound first session
  taken : session.heap.host.messages = #[]
  mirrored : ∃ store, Mirrored store session ∧ (Refused session.heap ∨ store = Store.after lines)

structure Answered (session : Session μ) (line : String)
    (own : Except ConsoleError (List String)) (middle next : Session μ) : Prop where
  command : (command line).run session = .ok own middle
  execute : execute line session =
    .ok (own.map fun lines => middle.heap.host.messages.toList ++ lines) next

omit [RawMemory μ] in
theorem Refused.mono {before after : Heap (Reports μ)} {events : List Event}
    (told : Told before after events) (refused : Refused before) : Refused after := by
  obtain ⟨size, error, member⟩ := refused
  refine ⟨size, error, ?_⟩
  rw [told.journal]
  exact List.mem_append_left _ member

variable {lines : List String}

structure Continued (first : μ) (lines : List String) (session : Session μ) (line : String)
    (own : Except ConsoleError (List String)) (middle next : Session μ) (events : List Event) :
    Prop where
  answered : Answered session line own middle next
  reported : Reported session.heap middle.heap events
  allowed : Refused middle.heap ∨ (Store.after lines).Allows line own
  errors : ∀ error, own = .error error → finalizerCalls events = [] ∨
    ((∃ reason, error = .allocation (.allocationFailed reason)) ∧ Refused middle.heap)
  finished : ∃ labels, next = middle.finished labels
  faithful : Faithful first (lines ++ [line]) next

theorem Faithful.exists_continued (fresh : RawMemory.Fresh first)
    (faithful : Faithful first lines session) (line : String) :
    ∃ own middle next events, Continued first lines session line own middle next events := by
  obtain ⟨store, mirrored, known⟩ := faithful.mirrored
  obtain ⟨own, middle, events, ran, sound, reported, outcome⟩ :=
    exists_command fresh faithful.sound mirrored line
  obtain ⟨labels, executed, kept⟩ := exists_execute ran
  -- after a refusal the session looks like some store, but not like the one after these lines
  have known : Refused middle.heap ∨ store = Store.after lines :=
    known.imp_left fun refused => refused.mono reported.told
  have next : Store.after (lines ++ [line]) = (Store.after lines).next line :=
    List.foldl_concat ..
  refine ⟨own, middle, middle.finished labels, events, {
    answered := ⟨ran, executed⟩
    reported := reported
    allowed := ?_
    errors := ?_
    finished := ⟨labels, rfl⟩
    faithful := ⟨sound.finished labels, rfl, ?_⟩ }⟩
  · rcases outcome with ⟨allowed, _, _⟩ | ⟨_, refused, _⟩
    · rcases known with refused | rfl
      · exact .inl refused
      · exact .inr allowed
    · exact .inl refused
  · rintro error rfl
    rcases outcome with ⟨_, _, uncalled⟩ | ⟨⟨reason, same⟩, refused, _⟩
    · exact .inl (uncalled error rfl)
    · cases same
      exact .inr ⟨⟨reason, rfl⟩, refused⟩
  · rcases outcome with ⟨_, mirrored, _⟩ | ⟨_, refused, mirrored⟩
    · refine ⟨store.next line, mirrored.finished kept, known.imp_right fun same => ?_⟩
      rw [next, same]
    · exact ⟨store, mirrored.finished kept, .inl refused⟩

theorem Faithful.exists_lines (fresh : RawMemory.Fresh first)
    (faithful : Faithful first lines session) (more : List String) :
    ∃ results after, more.mapM execute session = .ok results after ∧
      Faithful first (lines ++ more) after := by
  induction more generalizing lines session with
  | nil =>
    rw [List.mapM_nil, List.append_nil]
    exact ⟨[], session, rfl, faithful⟩
  | cons line rest ih =>
    obtain ⟨own, middle, next, events, continued⟩ := faithful.exists_continued fresh line
    obtain ⟨results, after, ran, faithful⟩ := ih continued.faithful
    rw [List.append_assoc] at faithful
    rw [List.mapM_cons, bind_of_ok continued.answered.execute, bind_of_ok ran]
    exact ⟨_, after, rfl, faithful⟩

theorem faithful_started (growth : Growth) (memory : μ) :
    Faithful memory [] (started growth memory) where
  sound := sound_started growth memory
  taken := rfl
  mirrored := by
    refine ⟨{}, ⟨nofun, fun _ => 0, ⟨nofun, nofun, nofun, fun name => ?_⟩⟩, .inr rfl⟩
    simp [lookup, started]

def Answers (session : Session μ) (lines : List String) (line : String)
    (own : Except ConsoleError (List String)) (middle : Session μ) : Prop :=
  ∃ results after next, lines.mapM execute session = .ok results after ∧
    Answered after line own middle next

/-- As long as the raw memory has not refused a request, all that a session answers is what the
    store without a collector answers, but for `collect`, `stats` and weak slots found empty. -/
def Refines (session : Session μ) : Prop :=
  ∀ lines line, ∃ own middle, Answers session lines line own middle ∧
    (¬ Refused middle.heap → (Store.after lines).Allows line own)

/-- Two sessions answer a line alike after the same lines, however many collections are asked for
    between these. -/
def Alike {ν : Type} [RawMemory ν] (session : Session μ) (other : Session ν) : Prop :=
  ∀ (lines lines' : List String) (line : String) own own' middle middle',
    (lines.filter fun line => ! Store.isCollect line) =
      (lines'.filter fun line => ! Store.isCollect line) →
    (Store.after lines).Foresees line → Answers session lines line own middle →
    Answers other lines' line own' middle' → ¬ Refused middle.heap → ¬ Refused middle'.heap →
    own = own'

theorem Answers.unique {own own' : Except ConsoleError (List String)} {line : String}
    {middle middle' : Session μ} (h : Answers session lines line own middle)
    (h' : Answers session lines line own' middle') : own = own' ∧ middle = middle' := by
  obtain ⟨_, _, _, ran, answered⟩ := h
  obtain ⟨_, _, _, ran', answered'⟩ := h'
  cases ran.symm.trans ran'
  cases answered.command.symm.trans answered'.command
  exact ⟨rfl, rfl⟩

theorem Faithful.refines (fresh : RawMemory.Fresh first) (faithful : Faithful first [] session) :
    Refines session := by
  intro lines line
  obtain ⟨results, after, ran, faithful⟩ := faithful.exists_lines fresh lines
  obtain ⟨own, middle, next, events, continued⟩ := faithful.exists_continued fresh line
  exact ⟨own, middle, ⟨results, after, next, ran, continued.answered⟩,
    fun granted => continued.allowed.resolve_left granted⟩

theorem Refines.eq_answer (h : Refines session) {line : String}
    {own : Except ConsoleError (List String)} {middle : Session μ}
    (foreseen : (Store.after lines).Foresees line) (answers : Answers session lines line own middle)
    (granted : ¬ Refused middle.heap) : own = (Store.after lines).answer line := by
  obtain ⟨own', middle', answers', allowed⟩ := h lines line
  obtain ⟨rfl, rfl⟩ := answers.unique answers'
  exact Store.eq_answer_of_foresees foreseen (allowed granted)

theorem Refines.alike {ν : Type} [RawMemory ν] {other : Session ν} (h : Refines session)
    (h' : Refines other) : Alike session other := by
  intro lines lines' line own own' middle middle' same foreseen answers answers' granted granted'
  -- collections that were asked for do not change the store
  have after : Store.after lines = Store.after lines' := by
    rw [← Store.after_filter lines, same, Store.after_filter]
  rw [h.eq_answer foreseen answers granted, after,
    h'.eq_answer (after ▸ foreseen) answers' granted']

end Lines

/-- Collections cannot be noticed: a session over a raw memory that keeps its side of the contract
    answers what a store answers in which nothing is ever freed, whatever its growth policy is and
    whichever collections are asked for. -/
theorem create_refines {ν : Type} [RawMemory ν] (growth growth' : Growth) (memory : μ) (memory' : ν)
    (valid : growth.isValid = true) (valid' : growth'.isValid = true)
    (fresh : RawMemory.Fresh memory) (fresh' : RawMemory.Fresh memory') :
    ∃ (session : Session μ) (session' : Session ν), create growth memory = .ok session ∧
      create growth' memory' = .ok session' ∧ Refines session ∧ Alike session session' := by
  have refines := (faithful_started growth memory).refines fresh
  have refines' := (faithful_started growth' memory').refines fresh'
  exact ⟨_, _, create_eq_ok valid memory, create_eq_ok valid' memory', refines,
    refines.alike refines'⟩

theorem create_refines_system :
    ({} : Growth).isValid = true ∧ ({ minHeapSize := 1 } : Growth).isValid = true ∧
      RawMemory.Fresh ({} : SystemMemory) ∧
      ∃ session session' : Session SystemMemory, create {} {} = .ok session ∧
        create { minHeapSize := 1 } {} = .ok session' ∧ Refines session ∧ Alike session session' :=
  ⟨by decide +kernel, by decide +kernel, SystemMemory.fresh {},
    create_refines {} { minHeapSize := 1 } ({} : SystemMemory) ({} : SystemMemory)
      (by decide +kernel) (by decide +kernel) (SystemMemory.fresh {}) (SystemMemory.fresh {})⟩

end Reclaim.Console.Session
