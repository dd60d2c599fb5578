import Reclaim.Proofs.Console.Recovery

namespace Reclaim.Console

namespace Session

variable {μ : Type} {names names' : Ref → Option String} {session after : Session μ}
  {objects : List Ref} {object o : Ref}

structure Named (names : Ref → Option String) (session : Session μ) (objects : List Ref) :
    Prop where
  label : ∀ o ∈ objects, ∃ name, session.heap.host.labels[o]? = some name ∧ names o = some name
  bound : ∀ name o, session.lookup name = some o → session.heap.host.labels[o]? = some name
  slots : ∀ o ∈ objects, ∀ target, some target ∈ Kind.contents session.heap o →
    session.heap.host.labels[target]? ≠ some "nil"

/-- What is true of a session between lines: the objects of the registry have their names as labels,
    and nothing else has one. -/
structure Labelled (names : Ref → Option String) (session : Session μ) : Prop
    extends Named names session session.heap.objects.toList where
  keys : ∀ o, o ∈ session.heap.host.labels ↔ o ∈ session.heap.objects.toList

def Shows (names : Ref → Option String) (shown : String) : Option Ref → Prop
  | none => shown = "nil"
  | some o => names o = some shown ∧ shown ≠ "nil"

theorem Shows.eq_nil_iff {shown : String} {word : Word}
    (shows : Shows names shown (Ref.ofWord? word)) : shown = "nil" ↔ word = 0 := by
  rw [Ref.ofWord?] at shows
  split at shows
  · rename_i zero
    exact iff_of_true shows zero
  · rename_i nonzero
    exact iff_of_false shows.2 nonzero

def renamed (names : Ref → Option String) (created? : Option String) (events : List Event)
    (o : Ref) : Option String :=
  if o ∈ (grants events).map Prod.fst then created? else names o

theorem renamed_of_ungranted {created? : Option String} {events : List Event}
    (ungranted : grants events = []) : renamed names created? events = names := by
  funext o
  rw [renamed, ungranted, List.map_nil, if_neg List.not_mem_nil]

namespace Named

theorem of_kept {fewer : List Ref} (named : Named names session objects)
    (sub : ∀ o ∈ fewer, o ∈ objects)
    (labels : after.heap.host.labels = session.heap.host.labels)
    (kept : ∀ o ∈ fewer, Kind.Kept session.heap after.heap o)
    (lookup : ∀ name o, after.lookup name = some o → session.lookup name = some o) :
    Named names after fewer where
  label := by
    rw [labels]
    exact fun o member => named.label o (sub o member)
  bound := by
    rw [labels]
    exact fun name o found => named.bound name o (lookup name o found)
  slots := by
    rw [labels]
    exact fun o member target held =>
      named.slots o (sub o member) target ((kept o member).mem_contents held)

theorem of_wrote (named : Named names session objects) {heap : Heap (Reports μ)}
    {queues : Array (Ref → Program (Reports μ))} {slot offset : Nat} {target : Option Ref}
    (found : ((Kind.of session.heap object).offsets (Kind.lengthOf session.heap object))[slot]? =
      some offset)
    (wrote : session.heap.Wrote heap object offset (Ref.slotWord target).toBytes)
    (other : ∀ o, target = some o → session.heap.host.labels[o]? ≠ some "nil") :
    Named names { session with collector := ⟨heap, queues⟩ } objects := by
  have labels : heap.host.labels = session.heap.host.labels := by rw [wrote.after_eq]
  have roots : heap.roots = session.heap.roots := by rw [wrote.after_eq]
  have contents := (Kind.contents_of_wrote wrote found).2
  exact {
    label := by
      change ∀ o ∈ objects, ∃ name, heap.host.labels[o]? = some name ∧ names o = some name
      rw [labels]
      exact named.label
    bound := by
      intro name o bound
      change heap.host.labels[o]? = some name
      rw [lookup_of_roots roots] at bound
      rw [labels]
      exact named.bound name o bound
    slots := by
      intro o member t held
      change heap.host.labels[t]? ≠ some "nil"
      change some t ∈ Kind.contents heap o at held
      rw [labels]
      by_cases same : object = o
      · subst same
        rw [contents] at held
        rcases List.mem_or_eq_of_mem_set held with old | new
        · exact named.slots object member t old
        · exact other t new.symm
      · exact named.slots o member t ((Kind.kept_of_wrote wrote same).mem_contents held) }

theorem describe_eq (named : Named names session objects) {name : String}
    (found : session.lookup name = some o) : session.describe (some o) = name := by
  rw [describe, Reports.nameOf, Std.TreeMap.getD_eq_getD_getElem?, named.bound name o found]
  rfl

theorem shows_describe (named : Named names session objects) (member : o ∈ objects)
    {target : Option Ref} (held : target ∈ Kind.contents session.heap o)
    (closed : ∀ t, target = some t → t ∈ objects) : Shows names (session.describe target) target := by
  cases target with
  | none => rfl
  | some target =>
    obtain ⟨name, label, called⟩ := named.label target (closed target rfl)
    have shown : session.describe (some target) = name := by
      rw [describe, Reports.nameOf, Std.TreeMap.getD_eq_getD_getElem?, label]
      rfl
    have other := named.slots o member target held
    rw [label] at other
    rw [shown]
    exact ⟨called, fun same => other (congrArg some same)⟩

end Named

def targetOf (session : Session μ) (name : String) : Option Ref :=
  if name = "nil" then none else session.lookup name

def Prints (names : Ref → Option String) (session : Session μ) : Command → List String → Prop
  | .weak name target, lines =>
    lines = [s!"{name} = weak -> {target}"] ∧ Shows names target (session.targetOf target)
  | .set name slot target, lines =>
    lines = [s!"{name}.{slot} = {target}"] ∧ Shows names target (session.targetOf target)
  | .get name slot, lines =>
    ∃ object index offset shown, session.lookup name = some object ∧
      Text.readWord? slot = some index ∧
      ((Kind.of session.heap object).offsets (Kind.lengthOf session.heap object))[index.toNat]? =
        some offset ∧
      lines = [s!"{name}.{slot} = {shown}"] ∧
      Shows names shown (Ref.ofWord? ((session.heap.memory.payload object).readWord offset)) ∧
      (shown = "nil" ↔ (session.heap.memory.payload object).readWord offset = 0)
  | _, _ => True

section Reading

theorem run_resolve (name : String) :
    ∃ result, (resolve name).run session = .ok result session ∧
      ∀ object, result = .ok object → session.lookup name = some object := by
  rw [resolve, run_get_bind, lookup]
  cases session.bindings[name]?.bind session.heap.roots.get with
  | none => exact ⟨_, rfl, by simp⟩
  | some object =>
    refine ⟨_, rfl, ?_⟩
    rintro _ ⟨⟩
    rfl

variable [RawMemory μ] {first : μ}

theorem Labelled.shows_bound (labelled : Labelled names session) (sound : Sound first session)
    {name : String} (found : session.lookup name = some o) (other : name ≠ "nil") :
    Shows names name (some o) := by
  obtain ⟨label, has, called⟩ :=
    labelled.label o (sound.upright.mem_of_rooted (mem_roots_of_lookup found))
  have same : label = name := Option.some.inj (has.symm.trans (labelled.bound name o found))
  exact ⟨same ▸ called, other⟩

theorem run_resolveTarget (labelled : Labelled names session) (sound : Sound first session)
    (name : String) :
    ∃ result, (resolveTarget name).run session = .ok result session ∧
      ∀ target, result = .ok target → target = session.targetOf name ∧
        session.describe target = name ∧ Shows names name target ∧
        ∀ o, target = some o → o ∈ session.heap.roots.objects ∧ name ≠ "nil" ∧
          session.lookup name = some o := by
  rw [resolveTarget, targetOf]
  split
  · rename_i empty
    refine ⟨_, rfl, ?_⟩
    rintro _ ⟨⟩
    exact ⟨rfl, empty.symm, empty, by simp⟩
  · rename_i other
    obtain ⟨result, ran, resolved⟩ := @run_resolve μ session name
    cases result with
    | error error => exact ⟨_, run_bind_of_error ran, by simp⟩
    | ok object =>
      have found := resolved object rfl
      refine ⟨_, run_bind_of_ok ran, ?_⟩
      rintro _ ⟨⟩
      refine ⟨found.symm, labelled.describe_eq found, labelled.shows_bound sound found other, ?_⟩
      rintro _ ⟨⟩
      exact ⟨mem_roots_of_lookup found, other, found⟩

theorem run_slotOffset (sound : Sound first session) (name : String)
    (member : object ∈ session.heap.objects.toList) (word : String) :
    ∃ result, (slotOffset name object word).run session = .ok result session ∧
      ∀ offset, result = .ok offset → ∃ index, Text.readWord? word = some index ∧
        ((Kind.of session.heap object).offsets (Kind.lengthOf session.heap object))[index.toNat]? =
          some offset.toNat := by
  rw [slotOffset, readNumber]
  cases Text.readWord? word with
  | none => exact ⟨_, rfl, by simp⟩
  | some index =>
    obtain ⟨_, _, readable⟩ := sound.upright.readable member
    obtain ⟨found, looked, place⟩ := Kind.exists_slotOffset sound.upright.types readable index
    have ran : (ExceptT.lift (look fun heap => Kind.slotOffset heap object index) :
        CommandM μ (Option Word)).run session = .ok (.ok found) session :=
      run_lift (look_of_ok looked)
    cases found with
    | none => exact ⟨_, run_bind_of_ok ran, by simp⟩
    | some offset =>
      refine ⟨_, run_bind_of_ok ran, ?_⟩
      rintro _ ⟨⟩
      exact ⟨index, rfl, place.symm⟩

end Reading

section Changes

variable [RawMemory μ] {first : μ}

structure Awaiting (names : Ref → Option String) (session : Session μ) (object : Ref)
    (objects : List Ref) : Prop where
  named : Named names session objects
  registry : session.heap.objects.toList = objects ++ [object]
  fresh : object ∉ objects
  closed : ∀ o ∈ objects, ∀ target, some target ∈ Kind.contents session.heap o → target ∈ objects
  rooted : ∀ o ∈ session.heap.roots.objects, o ∈ objects

theorem Named.of_collected (named : Named names session session.heap.objects.toList)
    {heap : Heap (Reports μ)} {events : List Event}
    (collected : Collected first session.heap heap events) :
    Named names { session with collector := ⟨heap, reporters⟩ } heap.objects.toList := by
  refine named.of_kept collected.objects collected.labels (fun o _ => collected.kept o) ?_
  intro name o found
  rwa [lookup_of_roots collected.roots] at found

structure Requested (names : Ref → Option String) (after : Session μ) (kind : Kind)
    (payload : Payload) (object : Ref) (objects : List Ref) (events : List Event) : Prop where
  awaiting : Awaiting names after object objects
  granted : (grants events).map Prod.fst = [object]
  kind_eq : Kind.of after.heap object = kind
  contents : Kind.contents after.heap object = kind.held payload

theorem exists_requested (fresh : RawMemory.Fresh first) (sound : Sound first session)
    (labelled : Labelled names session) {request : Request} (internal : request.isExternal = false)
    {kind : Kind} (typeId : request.typeId = kind.typeId) :
    ∃ result heap objects events, (allocate request).run session =
        .ok result { session with collector := ⟨heap, reporters⟩ } ∧
      Sound first { session with collector := ⟨heap, reporters⟩ } ∧
      Reported session.heap heap events ∧ heap.host.labels = session.heap.host.labels ∧
      heap.roots = session.heap.roots ∧
      (heap.stats.collections = session.heap.stats.collections →
        objects = session.heap.objects.toList) ∧
      ((∃ error, result = .error error ∧ grants events = [] ∧ heap.objects.toList = objects ∧
          Named names { session with collector := ⟨heap, reporters⟩ } objects) ∨
        ∃ object, result = .ok object ∧
          Requested names { session with collector := ⟨heap, reporters⟩ } kind request.payload
            object objects events) := by
  obtain ⟨answer, heap, ran, sound', allocated⟩ := exists_run_allocate fresh sound internal
  have roots := allocated.roots
  cases allocated with
  | rejected =>
    refine ⟨_, session.heap, session.heap.objects.toList, [], ran, sound', .refl, rfl, rfl,
      fun _ => rfl, .inl ⟨_, rfl, rfl, rfl, ?_⟩⟩
    exact labelled.of_kept (fun _ member => member) rfl (fun _ _ => .refl) fun _ _ found => found
  | @refused cost ready events error host _ collected answered =>
    have labels : host.labels = ready.host.labels := by
      rw [Reports.eq_of_request answered]
    have kept := labelled.toNamed.of_collected collected
    refine ⟨_, _, ready.objects.toList, _, ran, sound',
      collected.reported.silent (.of_refused answered) rfl, labels.trans collected.labels, roots,
      fun uncounted => congrArg Array.toList (collected.whole uncounted),
      .inl ⟨_, rfl, ?_, rfl, ?_⟩⟩
    · rw [grants, List.filterMap_append, ← grants, collected.ungranted]
      rfl
    · exact kept.of_kept (fun _ member => member) labels (fun _ _ => Kind.kept_of_memory rfl)
        fun _ _ found => found
  | @granted cost ready _ events object _ collected granted unused =>
    have labels : heap.host.labels = ready.host.labels := by
      rw [Reports.eq_of_request granted.answer]
    have kept := labelled.toNamed.of_collected collected
    obtain ⟨kind_eq, contents⟩ := Kind.of_granted granted typeId
    have apart {o : Ref} (member : o ∈ ready.objects.toList) : object ≠ o :=
      fun same => unused (same ▸ member)
    refine ⟨_, _, ready.objects.toList, _, ran, sound',
      collected.reported.silent (.of_granted granted) rfl, labels.trans collected.labels, roots,
      fun uncounted => congrArg Array.toList (collected.whole ?_), .inr ⟨object, rfl, ?_⟩⟩
    · rw [← uncounted, granted.stats]
    · exact {
        awaiting := {
          named := by
            refine kept.of_kept (fun _ member => member) labels
              (fun _ member => Kind.kept_of_granted granted (apart member)) ?_
            intro name o found
            rwa [lookup_of_roots roots, ← lookup_of_roots collected.roots] at found
          registry := by
            change heap.objects.toList = _
            rw [granted.objects, internal]
            rfl
          fresh := unused
          closed := by
            intro o member target held
            exact collected.upright.closed member
              ((Kind.kept_of_granted granted (apart member)).mem_contents held)
          rooted := by
            intro o member
            change o ∈ heap.roots.objects at member
            rw [granted.roots] at member
            exact collected.upright.mem_of_rooted member }
        granted := by
          rw [grants, List.filterMap_append, ← grants, collected.ungranted]
          rfl
        kind_eq
        contents }

omit [RawMemory μ] in
theorem Awaiting.of_wrote (awaiting : Awaiting names session object objects)
    {heap : Heap (Reports μ)} {offset : Nat} {bytes : List UInt8}
    (wrote : session.heap.Wrote heap object offset bytes) :
    Awaiting names { session with collector := ⟨heap, reporters⟩ } object objects := by
  have after_eq := wrote.after_eq
  have kept {o : Ref} (member : o ∈ objects) : Kind.Kept session.heap heap o :=
    Kind.kept_of_wrote wrote fun same => awaiting.fresh (same ▸ member)
  subst after_eq
  exact {
    named := awaiting.named.of_kept (fun _ member => member) rfl (fun _ member => kept member)
      fun _ _ found => found
    registry := awaiting.registry
    fresh := awaiting.fresh
    closed := fun o member target held =>
      awaiting.closed o member target ((kept member).mem_contents held)
    rooted := awaiting.rooted }

theorem Awaiting.bind (awaiting : Awaiting names session object objects)
    (sound : Sound first session) {name : String} (called : names' object = some name)
    (same : ∀ o ∈ objects, names' o = names o)
    (targets : ∀ target, some target ∈ Kind.contents session.heap object →
      target ∈ objects ∧ session.heap.host.labels[target]? ≠ some "nil") :
    ∃ roots bindings, bindName name object session =
        .ok () (session.labelled name object roots bindings) ∧
      Sound first (session.labelled name object roots bindings) ∧
      Named names' (session.labelled name object roots bindings) session.heap.objects.toList := by
  have listed : object ∈ session.heap.objects.toList := by
    rw [awaiting.registry]
    exact List.mem_append_right _ (List.mem_singleton.mpr rfl)
  obtain ⟨roots, bindings, ran, sound_after, lookup⟩ := exists_bindName sound name listed
  refine ⟨roots, bindings, ran, sound_after, ?_⟩
  have labels {o : Ref} (member : o ∈ objects) :
      (session.heap.host.labels.insert object name)[o]? = session.heap.host.labels[o]? := by
    have apart : object ≠ o := fun same => awaiting.fresh (same ▸ member)
    rw [Std.TreeMap.getElem?_insert]
    simp [apart]
  have new : (session.heap.host.labels.insert object name)[object]? = some name :=
    Std.TreeMap.getElem?_insert_self
  rw [awaiting.registry]
  exact {
    label := by
      intro o member
      change ∃ label, (session.heap.host.labels.insert object name)[o]? = some label ∧ _
      rcases List.mem_append.mp member with old | last
      · rw [labels old, same o old]
        exact awaiting.named.label o old
      · rw [List.mem_singleton.mp last]
        exact ⟨name, new, called⟩
    bound := by
      intro other o found
      change (session.heap.host.labels.insert object name)[o]? = some other
      rw [lookup] at found
      split at found
      · rename_i this
        cases found
        rw [new, this]
      · rw [labels (awaiting.rooted o (mem_roots_of_lookup found))]
        exact awaiting.named.bound other o found
    slots := by
      intro o member target held
      change (session.heap.host.labels.insert object name)[target]? ≠ some "nil"
      change some target ∈ Kind.contents session.heap o at held
      rcases List.mem_append.mp member with old | last
      · rw [labels (awaiting.closed o old target held)]
        exact awaiting.named.slots o old target held
      · rw [List.mem_singleton.mp last] at held
        rw [labels (targets target held).1]
        exact (targets target held).2 }

end Changes

end Session

end Reclaim.Console
