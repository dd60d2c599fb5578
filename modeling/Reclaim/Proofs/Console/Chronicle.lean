import Reclaim.Proofs.Console.Labels

namespace Reclaim.Console

def Command.created? : Command → Option String
  | .cell name | .vector name _ | .blob name _ | .weak name _ | .finalizable name _ => some name
  | _ => none

abbrev Chronicle := List (String × List Event)

/-- The name in the line during which the memory handed out the address of an object last. -/
def Chronicle.creationName : Chronicle → Ref → Option String
  | [], _ => none
  | (line, events) :: earlier, object =>
    if object ∈ (grants events).map Prod.fst then
      (Command.ofLine line).toOption.bind Command.created?
    else creationName earlier object

namespace Session

variable {μ : Type} [RawMemory μ] {first : μ} {names : Ref → Option String}
  {session middle : Session μ} {events : List Event} {object : Ref} {objects : List Ref}

structure Tracked (first : μ) (names : Ref → Option String) (session : Session μ)
    (created? : Option String) (middle : Session μ) (events : List Event) : Prop where
  sound : Sound first middle
  reported : Reported session.heap middle.heap events
  named : Named (renamed names created? events) middle middle.heap.objects.toList
  registered : middle.heap.stats.collections = session.heap.stats.collections →
    ∀ o ∈ middle.heap.host.labels, o ∈ middle.heap.objects.toList

theorem Labelled.tracked (labelled : Labelled names session) (sound : Sound first session)
    (created? : Option String) : Tracked first names session created? session [] where
  sound := sound
  reported := .refl
  named := by
    rw [renamed_of_ungranted rfl]
    exact labelled.toNamed
  registered := fun _ o member => (labelled.keys o).mp member

section Commands

variable {α β : Type} {part : CommandM μ α} {rest : α → CommandM μ β} {created? : Option String}
  {post : α → Prop} {goal : β → Prop}

def Tracks (first : μ) (names : Ref → Option String) (session : Session μ)
    (created? : Option String) (command : CommandM μ α) (post : α → Prop) : Prop :=
  ∃ result middle events, command.run session = .ok result middle ∧
    Tracked first names session created? middle events ∧ ∀ value, result = .ok value → post value

theorem Tracks.still (labelled : Labelled names session) (sound : Sound first session)
    {result : Except ConsoleError α} (ran : part.run session = .ok result session)
    (held : ∀ value, result = .ok value → post value) :
    Tracks first names session created? part post :=
  ⟨result, session, [], ran, labelled.tracked sound created?, held⟩

theorem Tracks.bind (labelled : Labelled names session) (sound : Sound first session)
    {result : Except ConsoleError α} (ran : part.run session = .ok result session)
    (follow : ∀ value, result = .ok value → Tracks first names session created? (rest value) goal) :
    Tracks first names session created? (part >>= rest) goal := by
  cases result with
  | error error => exact .still labelled sound (run_bind_of_error ran) nofun
  | ok value =>
    obtain ⟨result, middle, events, ran', tracked, held⟩ := follow value rfl
    exact ⟨result, middle, events, (run_bind_of_ok ran).trans ran', tracked, held⟩

theorem exists_bound (labelled : Labelled names session) (sound : Sound first middle)
    (awaiting : Awaiting names middle object objects)
    (reported : Reported session.heap middle.heap events)
    (granted : (grants events).map Prod.fst = [object])
    (labels : middle.heap.host.labels = session.heap.host.labels)
    (whole : middle.heap.stats.collections = session.heap.stats.collections →
      objects = session.heap.objects.toList)
    (targets : ∀ target, some target ∈ Kind.contents middle.heap object →
      target ∈ objects ∧ session.heap.host.labels[target]? ≠ some "nil") (name : String) :
    ∃ after events, bindName name object middle = .ok () after ∧
      Tracked first names session (some name) after events ∧
      ∀ target, (∀ o, target = some o → o ∈ objects) →
        after.describe target = session.describe target := by
  let event : Event := .logged (.bound name object)
  have granted' : (grants (events ++ [event])).map Prod.fst = [object] := by
    rw [grants, List.filterMap_append]
    exact (congrArg _ (List.append_nil _)).trans granted
  have called : renamed names (some name) (events ++ [event]) object = some name := by
    rw [renamed, granted', if_pos (List.mem_singleton.mpr rfl)]
  have same {o : Ref} (member : o ∈ objects) :
      renamed names (some name) (events ++ [event]) o = names o := by
    have apart : o ≠ object := fun same => awaiting.fresh (same ▸ member)
    rw [renamed, granted', if_neg (by simpa using apart)]
  obtain ⟨roots, bindings, ran, sound', named⟩ :=
    awaiting.bind sound called (fun o member => same member) (labels ▸ targets)
  refine ⟨_, events ++ [event], ran, ⟨sound', ?_, named, ?_⟩, ?_⟩
  · exact reported.silent (.event rfl rfl rfl rfl) rfl
  · intro uncounted o member
    change o ∈ middle.heap.host.labels.insert object name at member
    change o ∈ middle.heap.objects.toList
    rw [awaiting.registry, whole uncounted]
    rw [Std.TreeMap.mem_insert, labels, labelled.keys, Std.LawfulEqCmp.compare_eq_iff_eq] at member
    rcases member with rfl | old
    · exact List.mem_append_right _ (List.mem_singleton.mpr rfl)
    · exact List.mem_append_left _ old
  · intro target inside
    cases target with
    | none => rfl
    | some o =>
      have apart : object ≠ o := fun same => awaiting.fresh (same ▸ inside o rfl)
      have label : (middle.heap.host.labels.insert object name)[o]? =
          session.heap.host.labels[o]? := by
        rw [Std.TreeMap.getElem?_insert, labels]
        simp [apart]
      change Std.TreeMap.getD (middle.heap.host.labels.insert object name) o _ =
        Std.TreeMap.getD session.heap.host.labels o _
      rw [Std.TreeMap.getD_eq_getD_getElem?, Std.TreeMap.getD_eq_getD_getElem?, label]

theorem Tracked.of_refused (labelled : Labelled names session) {heap : Heap (Reports μ)}
    (sound : Sound first { session with collector := ⟨heap, reporters⟩ })
    (reported : Reported session.heap heap events)
    (labels : heap.host.labels = session.heap.host.labels)
    (whole : heap.stats.collections = session.heap.stats.collections →
      objects = session.heap.objects.toList) (ungranted : grants events = [])
    (registry : heap.objects.toList = objects)
    (named : Named names { session with collector := ⟨heap, reporters⟩ } objects) :
    Tracked first names session created? { session with collector := ⟨heap, reporters⟩ } events where
  sound := sound
  reported := reported
  named := by
    rw [renamed_of_ungranted ungranted]
    change Named names _ heap.objects.toList
    rw [registry]
    exact named
  registered := by
    intro uncounted o member
    change o ∈ heap.host.labels at member
    change o ∈ heap.objects.toList
    rw [registry, whole uncounted, ← labelled.keys, ← labels]
    exact member

theorem tracks_create (fresh : RawMemory.Fresh first) (labelled : Labelled names session)
    (sound : Sound first session) (request : Request) (internal : request.isExternal = false)
    (kind : Kind) (typeId : request.typeId = kind.typeId)
    (blank : ∀ target, some target ∉ kind.held request.payload) (name : String)
    (output : List String) :
    Tracks first names session (some name)
      (do
        let object ← allocate request
        ExceptT.lift (bindName name object)
        return output : CommandM μ (List String)) fun _ => True := by
  obtain ⟨result, heap, objects, events, ran, sound', reported, labels, roots, whole, answer⟩ :=
    exists_requested fresh sound labelled internal typeId
  rcases answer with ⟨error, rfl, ungranted, registry, named⟩ | ⟨object, rfl, requested⟩
  · exact ⟨_, _, events, run_bind_of_error ran,
      .of_refused labelled sound' reported labels whole ungranted registry named, nofun⟩
  · obtain ⟨after, more, bound, tracked, _⟩ := exists_bound labelled sound' requested.awaiting
      reported requested.granted labels whole
      (fun target held => absurd (requested.contents ▸ held) (blank target)) name
    refine ⟨.ok output, after, more, ?_, tracked, fun _ _ => trivial⟩
    rw [run_bind_of_ok ran, run_bind_of_ok (run_lift bound)]
    rfl

theorem tracks_weak (fresh : RawMemory.Fresh first) (labelled : Labelled names session)
    (sound : Sound first session) (name target : String) :
    Tracks first names session (some name) (run (.weak name target))
      (Prints names session (.weak name target)) := by
  obtain ⟨result, found, held⟩ := run_resolveTarget labelled sound target
  apply Tracks.bind labelled sound found
  rintro destination rfl
  obtain ⟨meant, described, shows, rooted⟩ := held destination rfl
  have internal : (Request.fixed Kind.weak.typeId 8 none true).isExternal = false := rfl
  have typed : (Request.fixed Kind.weak.typeId 8 none true).typeId = Kind.weak.typeId := rfl
  obtain ⟨result, heap, objects, events, ran, sound', reported, labels, roots, whole, answer⟩ :=
    exists_requested fresh sound labelled internal typed
  rcases answer with ⟨error, rfl, ungranted, registry, named⟩ | ⟨object, rfl, requested⟩
  · exact ⟨_, _, events, run_bind_of_error ran,
      .of_refused labelled sound' reported labels whole ungranted registry named, nofun⟩
  · have registry : heap.objects.toList = objects ++ [object] := requested.awaiting.registry
    have kind : Kind.of heap object = .weak := requested.kind_eq
    have member : object ∈ heap.objects.toList := by
      rw [registry]
      exact List.mem_append_right _ (List.mem_singleton.mpr rfl)
    have kept : ∀ o, destination = some o → o ∈ objects := fun o same =>
      requested.awaiting.rooted o (roots ▸ (rooted o same).1)
    have live : ∀ o, destination = some o → o ∈ heap.objects.toList := fun o same => by
      rw [registry]
      exact List.mem_append_left _ (kept o same)
    have slot : (0 : Word).toNat ∈ (Kind.of heap object).offsets (Kind.lengthOf heap object) := by
      rw [kind]
      exact List.mem_singleton.mpr rfl
    obtain ⟨heap', written, sound'', wrote⟩ := exists_applied_writeRef sound' member slot live
    have after_eq := wrote.after_eq
    have first_slot : ((Kind.of heap object).offsets (Kind.lengthOf heap object))[0]? =
        some (0 : Word).toNat := by
      rw [kind]
      rfl
    have contents : Kind.contents heap' object = [destination] := by
      have blank : Kind.contents heap object = [none] := requested.contents
      have set := (Kind.contents_of_wrote wrote first_slot).2
      change _ = (Kind.contents heap object).set 0 destination at set
      rw [set, blank]
      rfl
    have told : Reported session.heap heap' events := by
      have silent := reported.silent (.of_wrote wrote) rfl
      rwa [List.append_nil] at silent
    have targets : ∀ t, some t ∈ Kind.contents heap' object →
        t ∈ objects ∧ session.heap.host.labels[t]? ≠ some "nil" := by
      intro t held
      rw [contents, List.mem_singleton] at held
      obtain ⟨_, other, found⟩ := rooted t held.symm
      rw [labelled.bound target t found]
      exact ⟨kept t held.symm, fun same => other (Option.some.inj same)⟩
    obtain ⟨after, more, bound, tracked, same⟩ := exists_bound labelled sound''
      (requested.awaiting.of_wrote wrote) told requested.granted (by rw [← labels, after_eq]; rfl)
      (fun uncounted => whole (by rw [← uncounted, after_eq]; rfl)) targets name
    refine ⟨.ok [s!"{name} = weak -> {after.describe destination}"], after, more, ?_, tracked, ?_⟩
    · rw [run_bind_of_ok ran, run_bind_of_ok (run_lift written), run_bind_of_ok (run_lift bound)]
      rfl
    · rintro _ ⟨⟩
      rw [same destination kept, described]
      exact ⟨rfl, meant ▸ shows⟩

theorem tracks_set (labelled : Labelled names session) (sound : Sound first session)
    (name slot target : String) :
    Tracks first names session none (run (.set name slot target))
      (Prints names session (.set name slot target)) := by
  obtain ⟨result, resolved, bound⟩ := run_resolve name
  apply Tracks.bind labelled sound resolved
  rintro object rfl
  have member := sound.upright.mem_of_rooted (mem_roots_of_lookup (bound object rfl))
  obtain ⟨result, looked, place⟩ := run_slotOffset sound name member slot
  apply Tracks.bind labelled sound looked
  rintro offset rfl
  obtain ⟨index, _, position⟩ := place offset rfl
  obtain ⟨result, found, held⟩ := run_resolveTarget labelled sound target
  apply Tracks.bind labelled sound found
  rintro destination rfl
  obtain ⟨meant, described, shows, rooted⟩ := held destination rfl
  obtain ⟨heap, written, sound', wrote⟩ := exists_applied_writeRef sound member
    (List.mem_of_getElem? position) fun o same => sound.upright.mem_of_rooted (rooted o same).1
  have named : Named names { session with collector := ⟨heap, reporters⟩ }
      session.heap.objects.toList := by
    refine labelled.toNamed.of_wrote position wrote fun o same => ?_
    obtain ⟨_, other, found⟩ := rooted o same
    rw [labelled.bound target o found]
    exact fun same => other (Option.some.inj same)
  have told : Told session.heap heap [] := .of_wrote wrote
  have after_eq := wrote.after_eq
  refine ⟨.ok [s!"{name}.{slot} = {Session.describe ⟨⟨heap, reporters⟩, session.bindings⟩ destination}"],
    _, [], ?_, ⟨sound', told.reported rfl, ?_, ?_⟩, ?_⟩
  · rw [run_bind_of_ok (run_lift written)]
    rfl
  · rw [renamed_of_ungranted rfl]
    subst after_eq
    exact named
  · subst after_eq
    exact fun _ o member => (labelled.keys o).mp member
  · rintro _ ⟨⟩
    have same : Session.describe ⟨⟨heap, reporters⟩, session.bindings⟩ destination =
        session.describe destination := by
      subst after_eq
      rfl
    rw [same, described]
    exact ⟨rfl, meant ▸ shows⟩

theorem tracks_get (labelled : Labelled names session) (sound : Sound first session)
    (name slot : String) :
    Tracks first names session none (run (.get name slot))
      (Prints names session (.get name slot)) := by
  obtain ⟨result, resolved, bound⟩ := run_resolve name
  apply Tracks.bind labelled sound resolved
  rintro object rfl
  have member := sound.upright.mem_of_rooted (mem_roots_of_lookup (bound object rfl))
  obtain ⟨result, looked, place⟩ := run_slotOffset sound name member slot
  apply Tracks.bind labelled sound looked
  rintro offset rfl
  obtain ⟨index, number, position⟩ := place offset rfl
  have listed := List.mem_of_getElem? position
  have read := readRef_eq_ok sound.upright member listed
  have held : Ref.ofWord? ((session.heap.memory.payload object).readWord offset.toNat) ∈
      Kind.contents session.heap object := List.mem_map.mpr ⟨offset.toNat, listed, rfl⟩
  have shows := labelled.shows_describe member held fun t same =>
    sound.upright.closed member (same ▸ held)
  refine .still labelled sound (run_bind_of_ok (run_lift (look_of_ok read))) ?_
  rintro _ ⟨⟩
  exact ⟨object, index, offset.toNat, _, bound object rfl, number, position, rfl, shows,
    shows.eq_nil_iff⟩

theorem tracks_drop (labelled : Labelled names session) (sound : Sound first session)
    (name : String) : Tracks first names session none (run (.drop name)) fun _ => True := by
  cases bound : session.bindings[name]? with
  | none =>
    refine ⟨.error (.unknownName name), session, [], ?_, labelled.tracked sound none, nofun⟩
    rw [run, run_get_bind]
    simp only [bound]
    rfl
  | some root =>
    obtain ⟨roots, ran, sound', lookup⟩ := exists_drop sound bound
    refine ⟨_, _, [], ran, ⟨sound', Told.reported (.still rfl rfl rfl) rfl, ?_, ?_⟩,
      fun _ _ => trivial⟩
    · rw [renamed_of_ungranted rfl]
      refine labelled.of_kept (fun _ member => member) rfl
        (fun _ _ => Kind.kept_of_memory rfl) ?_
      intro other o found
      rw [lookup] at found
      split at found
      · cases found
      · exact found
    · exact fun _ o member => (labelled.keys o).mp member

theorem tracks_collect (labelled : Labelled names session) (sound : Sound first session) :
    Tracks first names session none (run .collect) fun _ => True := by
  obtain ⟨heap, events, ran, sound', collected⟩ := exists_applied_collect sound
  have tracked : Tracked first names session none { session with collector := ⟨heap, reporters⟩ }
      events :=
    .of_refused labelled sound' collected.reported collected.labels
      (fun uncounted => congrArg Array.toList (collected.whole uncounted)) collected.ungranted rfl
      (labelled.toNamed.of_collected collected)
  let cleared := heap.stats.weakrefsCleared - session.heap.stats.weakrefsCleared
  let line := s!"freed {heap.stats.lastFreed} objects ({heap.stats.lastFreedBytes} bytes), " ++
    s!"cleared {cleared} weak refs, heap size {heap.heapSize}"
  refine ⟨.ok [line], _, events, ?_, tracked, fun _ _ => trivial⟩
  rw [run, run_get_bind, run_bind_of_ok (run_lift ran)]
  rfl

theorem tracks_makeSized (fresh : RawMemory.Fresh first) (labelled : Labelled names session)
    (sound : Sound first session) (kind : Kind) (item : Word) (name length : String)
    (blank : ∀ (length : Word) target,
      some target ∉ kind.held (Payload.zero.writeWord 0 length)) :
    Tracks first names session (some name) (makeSized kind item name length) fun _ => True := by
  rw [makeSized, readNumber]
  cases Text.readWord? length with
  | none => exact .still labelled sound rfl (by simp)
  | some length =>
    exact tracks_create fresh labelled sound (.varsize kind.typeId length 8 item 0) rfl kind rfl
      (blank length) name _

theorem tracks_run (fresh : RawMemory.Fresh first) (labelled : Labelled names session)
    (sound : Sound first session) (command : Command) :
    Tracks first names session command.created? (run command) (Prints names session command) := by
  have no_cell : ∀ target, some target ∉ Kind.cell.held .zero := by
    simp [Kind.held_cell]
  cases command with
  | nothing => exact .still labelled sound rfl fun _ _ => trivial
  | cell name =>
    exact tracks_create fresh labelled sound (.fixed Kind.cell.typeId 16 none false) rfl .cell rfl
      no_cell name _
  | vector name length =>
    refine tracks_makeSized fresh labelled sound .vector 8 name length fun length target => ?_
    rw [Kind.held_vector]
    simp
  | blob name length =>
    exact tracks_makeSized fresh labelled sound .blob 1 name length fun _ _ => List.not_mem_nil
  | weak name target => exact tracks_weak fresh labelled sound name target
  | finalizable name light =>
    exact tracks_create fresh labelled sound
      (.fixed Kind.cell.typeId 16 (some { queue := queueOf light, light }) false) rfl .cell rfl
      no_cell name _
  | set name slot target => exact tracks_set labelled sound name slot target
  | get name slot => exact tracks_get labelled sound name slot
  | drop name => exact tracks_drop labelled sound name
  | roots => exact .still labelled sound rfl fun _ _ => trivial
  | collect => exact tracks_collect labelled sound
  | stats => exact .still labelled sound rfl fun _ _ => trivial
  | help => exact .still labelled sound rfl fun _ _ => trivial

end Commands

section Lines

variable {told : Chronicle} {lines : List String} {line : String}

def callReport (names : Ref → Option String) (entry : FinalizerEntry) : Option String :=
  (names entry.object).map fun name =>
    "finalized " ++ name ++ (if entry.queue = queueOf true then " (light)" else "")

/-- How a line goes. What its command has done is in `middle`; the labels of objects that are gone
    are forgotten only after that. -/
structure Narrated (told : Chronicle) (session : Session μ) (line : String)
    (own : Except ConsoleError (List String)) (middle next : Session μ) (events : List Event) :
    Prop where
  answered : Answered session line own middle next
  journal : next.heap.journal.toList = session.heap.journal.toList ++ events
  labelled : Labelled (Chronicle.creationName ((line, events) :: told)) next
  reports : middle.heap.host.messages.toList.map some =
    (finalizerCalls events).map (callReport told.creationName)
  prints : ∀ command printed, Command.ofLine line = .ok command → own = .ok printed →
    Prints told.creationName session command printed

inductive Recorded (start : Session μ) : List String → Chronicle → Session μ → Prop where
  | start : Recorded start [] [] start
  | line {lines : List String} {told : Chronicle} {session next : Session μ} {line : String}
      {result : Except ConsoleError (List String)} {events : List Event}
      (before : Recorded start lines told session)
      (executed : execute line session = .ok result next)
      (journal : next.heap.journal.toList = session.heap.journal.toList ++ events) :
      Recorded start (lines ++ [line]) ((line, events) :: told) next

structure Chronicled (first : μ) (told : Chronicle) (session : Session μ) : Prop where
  sound : Sound first session
  labelled : Labelled told.creationName session
  taken : session.heap.host.messages = #[]

theorem Tracked.messages_eq (labelled : Labelled names session) (sound : Sound first session)
    (taken : session.heap.host.messages = #[]) {created? : Option String}
    (tracked : Tracked first names session created? middle events) :
    middle.heap.host.messages.toList.map some = (finalizerCalls events).map (callReport names) := by
  have messages := tracked.reported.told.messages
  rw [taken] at messages
  rw [messages, List.nil_append, List.map_map]
  apply List.map_congr_left
  intro entry member
  have registered : entry.object ∈ session.heap.objects.toList :=
    sound.upright.consistent.finalizers_mem _
      (List.mem_map_of_mem (tracked.reported.registered entry member))
  obtain ⟨name, label, called⟩ := labelled.label entry.object registered
  rw [Function.comp_apply, Reports.lineFor, Reports.nameOf, Std.TreeMap.getD_eq_getD_getElem?,
    label, callReport, called]
  rfl

theorem Tracked.getElem?_labelsAfter {created? : Option String}
    (tracked : Tracked first names session created? middle events) (o : Ref) :
    (labelsAfter session middle)[o]? =
      if o ∈ middle.heap.objects.toList then middle.heap.host.labels[o]? else none := by
  rw [labelsAfter]
  split
  · rw [Std.TreeMap.getElem?_filter']
    by_cases member : o ∈ middle.heap.objects
    · rw [if_pos (Array.mem_toList_iff.mpr member)]
      cases middle.heap.host.labels[o]? <;> simp [member]
    · rw [if_neg fun listed => member (Array.mem_toList_iff.mp listed)]
      cases middle.heap.host.labels[o]? <;> simp [member]
  · rename_i uncounted
    split
    · rfl
    · rename_i gone
      rw [Std.TreeMap.getElem?_eq_none]
      exact fun member => gone (tracked.registered (not_not.mp uncounted) o member)

theorem Tracked.labelled {created? : Option String}
    (tracked : Tracked first names session created? middle events) :
    Labelled (renamed names created? events) (middle.finished (labelsAfter session middle)) := by
  have upright := tracked.sound.upright
  have left := tracked.getElem?_labelsAfter
  have kept {o : Ref} (member : o ∈ middle.heap.objects.toList) :
      (labelsAfter session middle)[o]? = middle.heap.host.labels[o]? := by
    rw [left, if_pos member]
  exact {
    label := by
      intro o member
      change ∃ name, (labelsAfter session middle)[o]? = some name ∧ _
      change o ∈ middle.heap.objects.toList at member
      rw [kept member]
      exact tracked.named.label o member
    bound := by
      intro name o found
      change (labelsAfter session middle)[o]? = some name
      change middle.lookup name = some o at found
      rw [kept (upright.mem_of_rooted (mem_roots_of_lookup found))]
      exact tracked.named.bound name o found
    slots := by
      intro o member target held
      change (labelsAfter session middle)[target]? ≠ some "nil"
      change o ∈ middle.heap.objects.toList at member
      change some target ∈ Kind.contents middle.heap o at held
      rw [kept (upright.closed member held)]
      exact tracked.named.slots o member target held
    keys := by
      intro o
      change o ∈ labelsAfter session middle ↔ o ∈ middle.heap.objects.toList
      rw [Std.TreeMap.mem_iff_isSome_getElem?, left]
      split
      · rename_i member
        obtain ⟨name, label, _⟩ := tracked.named.label o member
        simp [label, member]
      · rename_i gone
        simp [gone] }

theorem exists_narrated (fresh : RawMemory.Fresh first) (chronicled : Chronicled first told session)
    (line : String) :
    ∃ own middle next events, Narrated told session line own middle next events ∧
      Chronicled first ((line, events) :: told) next := by
  obtain ⟨sound, labelled, taken⟩ := chronicled
  obtain ⟨own, middle, events, ran, tracked, printed⟩ :
      Tracks first told.creationName session
        ((Command.ofLine line).toOption.bind Command.created?) (command line) fun lines =>
          ∀ command, Command.ofLine line = .ok command →
            Prints told.creationName session command lines := by
    rw [command]
    cases Command.ofLine line with
    | error error => exact .still labelled sound rfl (by simp)
    | ok command =>
      obtain ⟨own, middle, events, ran, tracked, printed⟩ := tracks_run fresh labelled sound command
      refine ⟨own, middle, events, ran, tracked, fun lines same other read => ?_⟩
      cases read
      exact printed lines same
  have executed := execute_of_command ran
  have journal : (middle.finished (labelsAfter session middle)).heap.journal.toList =
      session.heap.journal.toList ++ events := tracked.reported.told.journal
  refine ⟨own, middle, _, events, ?_, tracked.sound.finished _, tracked.labelled, rfl⟩
  exact {
    answered := ⟨ran, executed⟩
    journal
    labelled := tracked.labelled
    reports := tracked.messages_eq labelled sound taken
    prints := fun command lines read same => printed lines same command read }

theorem exists_recorded (fresh : RawMemory.Fresh first) {start : Session μ}
    (chronicled : Chronicled first told session) (recorded : Recorded start lines told session)
    (more : List String) :
    ∃ results told' after, more.mapM execute session = .ok results after ∧
      Recorded start (lines ++ more) told' after ∧ Chronicled first told' after := by
  induction more generalizing lines told session with
  | nil =>
    refine ⟨[], told, session, ?_, ?_, chronicled⟩
    · rw [List.mapM_nil]
      rfl
    · rw [List.append_nil]
      exact recorded
  | cons line rest ih =>
    obtain ⟨own, middle, next, events, narrated, chronicled⟩ :=
      exists_narrated fresh chronicled line
    obtain ⟨results, told', after, ran, recorded, chronicled⟩ :=
      ih chronicled (recorded.line narrated.answered.execute narrated.journal)
    rw [List.append_assoc] at recorded
    refine ⟨own.map (fun lines => middle.heap.host.messages.toList ++ lines) :: results, told',
      after, ?_, recorded, chronicled⟩
    rw [List.mapM_cons, bind_of_ok narrated.answered.execute, bind_of_ok ran]
    rfl

/-- Whatever lines a session was given, and however they ended: the labelled addresses are those of
    the objects of the registry, each labelled with the name in the line that made the object, and
    the object of a bound name is labelled with that name. The next line keeps it so. Where it
    prints an object, in its own lines or in the report of a finalizer, it prints that name, and
    where it prints `nil` the slot is empty. -/
def KeepsLabels (start : Session μ) : Prop :=
  ∀ lines : List String, ∃ results told session, lines.mapM execute start = .ok results session ∧
    Recorded start lines told session ∧ Labelled told.creationName session ∧
    ∀ line, ∃ own middle next events, Narrated told session line own middle next events

theorem create_keepsLabels (growth : Growth) (memory : μ) (valid : growth.isValid = true)
    (fresh : RawMemory.Fresh memory) :
    ∃ start, create growth memory = .ok start ∧ KeepsLabels start := by
  have chronicled : Chronicled memory [] (started growth memory) := {
    sound := sound_started growth memory
    labelled := {
      label := nofun
      bound := by
        intro name o found
        simp [lookup, started] at found
      slots := nofun
      keys := by
        intro o
        simp [started, heap] }
    taken := rfl }
  refine ⟨_, create_eq_ok valid memory, fun lines => ?_⟩
  obtain ⟨results, told, session, ran, recorded, chronicled⟩ :=
    exists_recorded fresh chronicled .start lines
  refine ⟨results, told, session, ran, recorded, chronicled.labelled, fun line => ?_⟩
  obtain ⟨own, middle, next, events, narrated, _⟩ := exists_narrated fresh chronicled line
  exact ⟨own, middle, next, events, narrated⟩

/-- An object may be called `nil`, but no slot can be made to show it. -/
example : (create {} ({} : SystemMemory)).toOption.map (fun session =>
    let lines := ["cell nil", "cell a", "set a 0 nil", "get a 0", "set nil 0 a", "get nil 0"]
    match lines.mapM execute session with
    | .ok results _ => results.map Except.toOption
    | .error _ _ => []) =
    some [some ["nil = cell"], some ["a = cell"], some ["a.0 = nil"], some ["a.0 = nil"],
      some ["nil.0 = a"], some ["nil.0 = a"]] := by
  decide +kernel

theorem create_keepsLabels_system :
    ({} : Growth).isValid = true ∧ RawMemory.Fresh ({} : SystemMemory) ∧
      ∃ start : Session SystemMemory, create {} {} = .ok start ∧ KeepsLabels start :=
  ⟨by decide +kernel, SystemMemory.fresh {},
    create_keepsLabels {} ({} : SystemMemory) (by decide +kernel) (SystemMemory.fresh {})⟩

end Lines

end Session

end Reclaim.Console
