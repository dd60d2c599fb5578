import Reclaim.Proofs.Console.Collections

namespace Reclaim.Console.Session

variable {μ : Type} [RawMemory μ] {first : μ} {session : Session μ}

structure Sound (first : μ) (session : Session μ) : Prop where
  upright : Upright first session.heap
  idle : session.heap.collecting = false
  callbacks : session.collector.queues = reporters
  bound : ∀ (name : String) root, session.bindings[name]? = some root →
    ∃ object, session.heap.roots.Holds root object
  distinct : ∀ (name other : String) root, session.bindings[name]? = some root →
    session.bindings[other]? = some root → name = other

namespace Sound

theorem collector_eq (sound : Sound first session) :
    session.collector = ⟨session.heap, reporters⟩ := by
  rw [← sound.callbacks]
  rfl

theorem with_heap (sound : Sound first session) {heap : Heap (Reports μ)}
    (upright : Upright first heap) (idle : heap.collecting = false)
    (roots : heap.roots = session.heap.roots) :
    Sound first { session with collector := ⟨heap, reporters⟩ } where
  upright := upright
  idle := idle
  callbacks := rfl
  bound := by
    intro name root found
    obtain ⟨object, holds⟩ := sound.bound name root found
    exact ⟨object, roots ▸ holds⟩
  distinct := sound.distinct

end Sound

section Actions

variable {α β : Type}

def Carried (first : μ) (session : Session μ) (action : SessionM μ α)
    (post : α → Session μ → Prop) : Prop :=
  ∃ value after, action session = .ok value after ∧ Sound first after ∧
    session.heap.stats.weakrefsCleared ≤ after.heap.stats.weakrefsCleared ∧ post value after

def Executed (first : μ) (session : Session μ) (command : CommandM μ α)
    (post : α → Session μ → Prop) : Prop :=
  Carried first session command.run fun result after =>
    ∀ value, result = .ok value → post value after

variable {action : SessionM μ α} {next : α → SessionM μ β} {command : CommandM μ α}
  {rest : α → CommandM μ β} {post : α → Session μ → Prop} {goal : β → Session μ → Prop}

theorem Carried.bind (h : Carried first session action post)
    (follow : ∀ value after, Sound first after → post value after →
      Carried first after (next value) goal) : Carried first session (action >>= next) goal := by
  obtain ⟨value, middle, ran, sound, less, held⟩ := h
  obtain ⟨answer, after, run, sound, less', held⟩ := follow value middle sound held
  exact ⟨answer, after, (bind_of_ok ran).trans run, sound, less.trans less', held⟩

theorem Carried.pure (sound : Sound first session) {value : α} (held : post value session) :
    Carried first session (pure value) post :=
  ⟨value, session, rfl, sound, Nat.le_refl _, held⟩

theorem Executed.lift (h : Carried first session action post) :
    Executed first session (ExceptT.lift action) post := by
  obtain ⟨value, after, ran, sound, less, held⟩ := h
  refine ⟨.ok value, after, ?_, sound, less, ?_⟩
  · change (Except.ok <$> action) session = _
    simp only [Functor.map, EStateM.map, ran]
  · rintro _ ⟨⟩
    exact held

theorem Executed.pure (sound : Sound first session) {value : α} (held : post value session) :
    Executed first session (pure value) post := by
  refine ⟨.ok value, session, rfl, sound, Nat.le_refl _, ?_⟩
  rintro _ ⟨⟩
  exact held

theorem Executed.throw (sound : Sound first session) (error : ConsoleError) :
    Executed first session (throw error : CommandM μ α) post :=
  ⟨.error error, session, rfl, sound, Nat.le_refl _, nofun⟩

theorem Executed.bind (h : Executed first session command post)
    (follow : ∀ value after, Sound first after → post value after →
      Executed first after (rest value) goal) : Executed first session (command >>= rest) goal := by
  change Carried first session (command.run >>= ExceptT.bindCont rest) _
  refine Carried.bind h fun result after sound held => ?_
  cases result with
  | ok value => exact follow value after sound (held value rfl)
  | error error => exact Executed.throw sound error

end Actions

section Runs

variable {α β : Type} {after : Session μ} {command : CommandM μ α} {rest : α → CommandM μ β}

omit [RawMemory μ] in
theorem run_get_bind {rest : Session μ → CommandM μ β} :
    (get >>= rest).run session = (rest session).run session :=
  rfl

omit [RawMemory μ] in
theorem run_bind_of_ok {value : α} (ran : command.run session = .ok (.ok value) after) :
    (command >>= rest).run session = (rest value).run after :=
  bind_of_ok ran

omit [RawMemory μ] in
theorem run_bind_of_error {error : ConsoleError}
    (ran : command.run session = .ok (.error error) after) :
    (command >>= rest).run session = .ok (.error error) after :=
  bind_of_ok ran

omit [RawMemory μ] in
theorem run_lift {action : SessionM μ α} {value : α} (ran : action session = .ok value after) :
    (ExceptT.lift action : CommandM μ α).run session = .ok (.ok value) after := by
  change (Except.ok <$> action) session = _
  simp only [Functor.map, EStateM.map, ran]

end Runs

section Operations

theorem executed_get_bind {α : Type} {rest : Session μ → CommandM μ α} {post : α → Session μ → Prop}
    (h : Executed first session (rest session) post) :
    Executed first session (get >>= rest) post := h

theorem carried_get_bind {α : Type} {rest : Session μ → SessionM μ α} {post : α → Session μ → Prop}
    (h : Carried first session (rest session) post) :
    Carried first session (get >>= rest) post := h

omit [RawMemory μ] in
theorem onCollector_of_ok {α : Type} {action : CollectorM (Reports μ) α} {value : α}
    {collector : Collector (Reports μ)} (ran : action session.collector = .ok value collector) :
    onCollector action session = .ok value { session with collector } := by
  simp only [onCollector, ran]

omit [RawMemory μ] in
theorem onHeap_of_ok {α : Type} {action : HeapM (Reports μ) α} {value : α}
    {heap : Heap (Reports μ)} (ran : action session.heap = .ok value heap) :
    onCollector (Collector.onHeap action) session =
      .ok value { session with collector := ⟨heap, session.collector.queues⟩ } :=
  onCollector_of_ok (Collector.onHeap_of_ok ran)

omit [RawMemory μ] in
theorem look_of_ok {α : Type} {read : Heap (Reports μ) → Except Fault α} {value : α}
    (found : read session.heap = .ok value) : look read session = .ok value session := by
  have same : Collector.onHeap (Heap.check read) session.collector = .ok value session.collector :=
    Collector.onHeap_of_ok (Heap.check_of_ok found)
  simp only [look, onCollector, same]

theorem carried_look (sound : Sound first session) {α : Type}
    {read : Heap (Reports μ) → Except Fault α} {value : α} (found : read session.heap = .ok value) :
    Carried first session (look read) fun answer after => answer = value ∧ after = session :=
  ⟨value, session, look_of_ok found, sound, Nat.le_refl _, rfl, rfl⟩

theorem Sound.with_host (sound : Sound first session) (host : Reports μ)
    (same : host.memory = session.heap.host.memory) :
    Sound first { session with collector := ⟨{ session.heap with host }, reporters⟩ } := by
  have aside : session.heap.Aside { session.heap with host } :=
    ⟨rfl, rfl, rfl, rfl, rfl, rfl, rfl, fun _ => .inl, [], (List.append_nil _).symm, rfl, rfl⟩
  have upright : Upright first { session.heap with host } :=
    sound.upright.of_aside aside rfl sound.upright.roots (same ▸ sound.upright.memory)
  exact sound.with_heap upright sound.idle rfl

theorem onReports_eq_ok (sound : Sound first session) (update : Reports μ → Reports μ) :
    onReports update session = .ok ()
      { session with
        collector := ⟨{ session.heap with host := update session.heap.host }, reporters⟩ } := by
  rw [← sound.callbacks]
  exact onHeap_of_ok rfl

theorem carried_onReports (sound : Sound first session) {update : Reports μ → Reports μ}
    (same : (update session.heap.host).memory = session.heap.host.memory) :
    Carried first session (onReports update) fun _ after =>
      after.heap.objects = session.heap.objects :=
  ⟨(), _, onReports_eq_ok sound update, sound.with_host _ same, Nat.le_refl _, rfl⟩

theorem exists_run_allocate (fresh : RawMemory.Fresh first) (sound : Sound first session)
    {request : Request} (internal : request.isExternal = false) :
    ∃ answer heap, (allocate request).run session =
        .ok (answer.mapError .allocation) { session with collector := ⟨heap, reporters⟩ } ∧
      Sound first { session with collector := ⟨heap, reporters⟩ } ∧
      Allocation first session.heap request answer heap := by
  obtain ⟨answer, heap, ran, upright, idle, allocated⟩ :=
    exists_allocate fresh sound.upright sound.idle internal
  have called : apply (.allocate request) session =
      .ok answer { session with collector := ⟨heap, reporters⟩ } :=
    onCollector_of_ok (sound.collector_eq ▸ ran)
  refine ⟨answer, heap, ?_, sound.with_heap upright idle allocated.roots, allocated⟩
  rw [allocate, run_bind_of_ok (run_lift called)]
  cases answer <;> rfl

theorem executed_allocate (fresh : RawMemory.Fresh first) (sound : Sound first session)
    {request : Request} (internal : request.isExternal = false) :
    Executed first session (allocate request) fun object after =>
      object ∈ after.heap.objects.toList ∧
        (after.heap.memory.header object).typeId = request.typeId ∧
        after.heap.roots = session.heap.roots := by
  obtain ⟨answer, heap, ran, sound', allocated⟩ := exists_run_allocate fresh sound internal
  refine ⟨_, _, ran, sound', allocated.cleared, fun object same => ?_⟩
  cases answer with
  | error error => cases same
  | ok found =>
    cases same
    obtain ⟨member, typeId⟩ := allocated.mem_objects internal
    exact ⟨member, typeId, allocated.roots⟩

theorem exists_applied_collect (sound : Sound first session) :
    ∃ heap events, apply .collect session =
        .ok () { session with collector := ⟨heap, reporters⟩ } ∧
      Sound first { session with collector := ⟨heap, reporters⟩ } ∧
      Collected first session.heap heap events := by
  obtain ⟨heap, events, ran, collected⟩ := exists_collect sound.upright sound.idle
  exact ⟨heap, events, onCollector_of_ok (sound.collector_eq ▸ ran),
    sound.with_heap collected.upright collected.idle collected.roots, collected⟩

theorem carried_collect (sound : Sound first session) :
    Carried first session (apply .collect) fun _ _ => True := by
  obtain ⟨heap, events, ran, sound', collected⟩ := exists_applied_collect sound
  exact ⟨(), _, ran, sound', collected.cleared, trivial⟩

variable {object : Ref}

theorem getElem?_erase_eq_some {bindings : Std.TreeMap String RootId} {name other : String}
    {id : RootId} : (bindings.erase name)[other]? = some id ↔
      name ≠ other ∧ bindings[other]? = some id := by
  rw [Std.TreeMap.getElem?_erase]
  by_cases same : name = other
  · simp [same]
  · simp [same]

def lookup (session : Session μ) (name : String) : Option Ref :=
  session.bindings[name]?.bind session.heap.roots.get

omit [RawMemory μ] in
theorem lookup_of_roots {heap : Heap (Reports μ)} {queues : Array (Ref → Program (Reports μ))}
    (same : heap.roots = session.heap.roots) (name : String) :
    lookup { session with collector := ⟨heap, queues⟩ } name = session.lookup name := by
  simp only [lookup, Session.heap] at same ⊢
  rw [same]

omit [RawMemory μ] in
theorem mem_roots_of_lookup {name : String} (found : session.lookup name = some object) :
    object ∈ session.heap.roots.objects := by
  obtain ⟨root, _, held⟩ := Option.bind_eq_some_iff.mp found
  exact (RootTable.holds_of_get held).mem_objects

def labelled (session : Session μ) (name : String) (object : Ref) (roots : RootTable)
    (bindings : Std.TreeMap String RootId) : Session μ where
  collector :=
    { heap :=
        { session.heap with
          host :=
            { session.heap.host with labels := session.heap.host.labels.insert object name }
          roots
          journal := session.heap.journal.push (.logged (.bound name object)) }
      queues := reporters }
  bindings

theorem exists_applied_writeRef (sound : Sound first session)
    (member : object ∈ session.heap.objects.toList) {offset : Word}
    (slot : offset.toNat ∈
      (Kind.of session.heap object).offsets (Kind.lengthOf session.heap object))
    {target : Option Ref} (live : ∀ o, target = some o → o ∈ session.heap.objects.toList) :
    ∃ heap, apply (.writeRef object offset target) session =
        .ok () { session with collector := ⟨heap, reporters⟩ } ∧
      Sound first { session with collector := ⟨heap, reporters⟩ } ∧
      session.heap.Wrote heap object offset.toNat (Ref.slotWord target).toBytes := by
  obtain ⟨heap, ran, upright, wrote⟩ := exists_writeRef sound.upright member slot live
  refine ⟨heap, ?_, sound.with_heap upright ?_ ?_, wrote⟩
  · rw [← sound.callbacks]
    exact onHeap_of_ok ran
  · rw [wrote.after_eq]
    exact sound.idle
  · rw [wrote.after_eq]

theorem carried_writeRef (sound : Sound first session)
    (member : object ∈ session.heap.objects.toList) {offset : Word}
    (slot : offset.toNat ∈
      (Kind.of session.heap object).offsets (Kind.lengthOf session.heap object))
    {target : Option Ref} (live : ∀ o, target = some o → o ∈ session.heap.objects.toList) :
    Carried first session (apply (.writeRef object offset target)) fun _ after =>
      after.heap.objects = session.heap.objects := by
  obtain ⟨heap, ran, sound', wrote⟩ := exists_applied_writeRef sound member slot live
  have after_eq := wrote.after_eq
  subst after_eq
  exact ⟨(), _, ran, sound', Nat.le_refl _, rfl⟩

omit [RawMemory μ] in
theorem lookup_eq_of_holds {name : String} {root : RootId}
    (found : session.bindings[name]? = some root) (holds : session.heap.roots.Holds root object) :
    session.lookup name = some object := by
  rw [lookup, found]
  exact holds.get

theorem Sound.labelled (sound : Sound first session) {name : String} {root : RootId}
    {roots : RootTable} {bindings : Std.TreeMap String RootId}
    (upright : Upright first (session.labelled name object roots bindings).heap)
    (bound : bindings[name]? = some root) (given : roots.Holds root object)
    (same : ∀ other, name ≠ other → bindings[other]? = session.bindings[other]?)
    (kept : ∀ other id held, name ≠ other → session.bindings[other]? = some id →
      session.heap.roots.Holds id held → id ≠ root ∧ roots.Holds id held) :
    Sound first (session.labelled name object roots bindings) ∧
      ∀ other, (session.labelled name object roots bindings).lookup other =
        if name = other then some object else session.lookup other := by
  have others (other : String) (id : RootId) (different : name ≠ other)
      (found : bindings[other]? = some id) :
      ∃ held, session.lookup other = some held ∧ id ≠ root ∧ roots.Holds id held := by
    rw [same other different] at found
    obtain ⟨held, holds⟩ := sound.bound other id found
    exact ⟨held, lookup_eq_of_holds found holds, kept other id held different found holds⟩
  refine ⟨⟨upright, sound.idle, rfl, ?_, ?_⟩, ?_⟩
  · intro other id found
    by_cases this : name = other
    · subst this
      cases bound.symm.trans found
      exact ⟨object, given⟩
    · obtain ⟨held, _, _, holds⟩ := others other id this found
      exact ⟨held, holds⟩
  · intro left right id found found'
    by_cases first : name = left <;> by_cases second : name = right
    · exact first.symm.trans second
    · subst first
      cases bound.symm.trans found
      exact absurd rfl (others right _ second found').choose_spec.2.1
    · subst second
      cases bound.symm.trans found'
      exact absurd rfl (others left _ first found).choose_spec.2.1
    · change bindings[left]? = some id at found
      change bindings[right]? = some id at found'
      rw [same left first] at found
      rw [same right second] at found'
      exact sound.distinct left right id found found'
  · intro other
    split
    · rename_i this
      exact lookup_eq_of_holds (this ▸ bound) given
    · rename_i different
      cases found : bindings[other]? with
      | none =>
        have unbound := found
        rw [same other different] at unbound
        simp only [lookup, Session.labelled, found, unbound, Option.bind_none]
      | some id =>
        obtain ⟨held, before, _, holds⟩ := others other id different found
        rw [before]
        exact lookup_eq_of_holds found holds

theorem exists_bindName (sound : Sound first session) (name : String)
    (member : object ∈ session.heap.objects.toList) :
    ∃ roots bindings, bindName name object session =
        .ok () (session.labelled name object roots bindings) ∧
      Sound first (session.labelled name object roots bindings) ∧
      ∀ other, (session.labelled name object roots bindings).lookup other =
        if name = other then some object else session.lookup other := by
  let host := { session.heap.host with labels := session.heap.host.labels.insert object name }
  let heap : Heap (Reports μ) := { session.heap with host }
  have upright : Upright first heap := (sound.with_host host rfl).upright
  have logged {roots : RootTable} {bindings : Std.TreeMap String RootId}
      (kept : Upright first { heap with roots }) :
      Upright first (session.labelled name object roots bindings).heap :=
    kept.of_aside (Heap.aside_record _ _) rfl kept.roots kept.memory
  rw [bindName, bind_of_ok (onReports_eq_ok sound _)]
  cases found : session.bindings[name]? with
  | some root =>
    obtain ⟨held, holds⟩ := sound.bound name root found
    obtain ⟨roots, ran, kept, given, others⟩ := exists_setRoot upright holds member
    refine ⟨roots, session.bindings, ?_, sound.labelled (logged kept) found given
      (fun _ _ => rfl) fun other id held different bound holds => ?_⟩
    · have changed : apply (.setRoot root (some object))
          { session with collector := ⟨heap, reporters⟩ } =
            .ok () { session with collector := ⟨{ heap with roots }, reporters⟩ } :=
        onHeap_of_ok ran
      rw [get_bind]
      simp only [found]
      exact bind_of_ok changed
    · have apart : id ≠ root := fun same =>
        different (sound.distinct name other root found (same ▸ bound))
      exact ⟨apart, others id held apart holds⟩
  | none =>
    obtain ⟨id, roots, ran, kept, added⟩ := exists_addRoot upright member
    have bound : (session.bindings.insert name id)[name]? = some id :=
      Std.TreeMap.getElem?_insert_self
    refine ⟨roots, session.bindings.insert name id, ?_, sound.labelled (logged kept) bound
      added.holds ?_ fun other root held _ _ holds => added.kept root held holds⟩
    · have changed : onCollector (Collector.onHeap (Heap.addRoot object))
          { session with collector := ⟨heap, reporters⟩ } =
            .ok id { session with collector := ⟨{ heap with roots }, reporters⟩ } :=
        onHeap_of_ok ran
      rw [get_bind]
      simp only [found]
      exact bind_of_ok changed
    · intro other different
      rw [Std.TreeMap.getElem?_insert]
      simp [different]

def dropped (session : Session μ) (name : String) (roots : RootTable) : Session μ where
  collector := { heap := { session.heap with roots }, queues := reporters }
  bindings := session.bindings.erase name

theorem exists_drop (sound : Sound first session) {name : String} {root : RootId}
    (found : session.bindings[name]? = some root) :
    ∃ roots, (run (.drop name)).run session =
        .ok (.ok [s!"dropped {name}"]) (session.dropped name roots) ∧
      Sound first (session.dropped name roots) ∧
      ∀ other, (session.dropped name roots).lookup other =
        if name = other then none else session.lookup other := by
  obtain ⟨object, holds⟩ := sound.bound name root found
  obtain ⟨roots, ran, upright, kept⟩ := exists_removeRoot sound.upright holds
  have others (other : String) (id : RootId)
      (left : (session.bindings.erase name)[other]? = some id) :
      ∃ held, session.lookup other = some held ∧ roots.Holds id held := by
    obtain ⟨different, bound⟩ := getElem?_erase_eq_some.mp left
    obtain ⟨held, holds⟩ := sound.bound other id bound
    have apart : id ≠ root := fun same =>
      different (sound.distinct name other root found (same ▸ bound))
    exact ⟨held, lookup_eq_of_holds bound holds, kept id held apart holds⟩
  refine ⟨roots, ?_, ⟨upright, sound.idle, rfl, ?_, ?_⟩, ?_⟩
  · have removed : onCollector (Collector.onHeap (Heap.removeRoot root))
        { session with bindings := session.bindings.erase name } =
          .ok () (session.dropped name roots) := by
      rw [dropped, ← sound.callbacks]
      exact onHeap_of_ok ran
    rw [run, run_get_bind]
    simp only [found]
    exact run_bind_of_ok (run_lift removed)
  · intro other id left
    obtain ⟨held, _, holds⟩ := others other id left
    exact ⟨held, holds⟩
  · exact fun _ _ _ left right => sound.distinct _ _ _ (getElem?_erase_eq_some.mp left).2
      (getElem?_erase_eq_some.mp right).2
  · intro other
    split
    · rename_i same
      have erased : (session.bindings.erase name)[other]? = none := by
        simp [same]
      simp only [lookup, dropped, erased, Option.bind_none]
    · rename_i different
      cases left : (session.bindings.erase name)[other]? with
      | none =>
        have unbound : session.bindings[other]? = none := by
          rw [← left, Std.TreeMap.getElem?_erase]
          simp [different]
        simp only [lookup, dropped, left, unbound, Option.bind_none]
      | some id =>
        obtain ⟨held, before, holds⟩ := others other id left
        rw [before]
        exact lookup_eq_of_holds left holds

theorem carried_bindName (sound : Sound first session) (name : String)
    (member : object ∈ session.heap.objects.toList) :
    Carried first session (bindName name object) fun _ _ => True := by
  obtain ⟨roots, bindings, ran, sound, _⟩ := exists_bindName sound name member
  exact ⟨(), _, ran, sound, Nat.le_refl _, trivial⟩

end Operations

section Commands

theorem executed_readNumber (sound : Sound first session) (word : String) :
    Executed first session (readNumber word) fun _ after => after = session := by
  rw [readNumber]
  cases Text.readWord? word with
  | none => exact .throw sound _
  | some number => exact .pure sound rfl

theorem executed_resolve (sound : Sound first session) (name : String) :
    Executed first session (resolve name) fun object after =>
      after = session ∧ object ∈ session.heap.roots.objects := by
  refine executed_get_bind ?_
  cases found : session.bindings[name]?.bind session.heap.roots.get with
  | none => exact .throw sound _
  | some object =>
    obtain ⟨root, _, held⟩ := Option.bind_eq_some_iff.mp found
    exact .pure sound ⟨rfl, (RootTable.holds_of_get held).mem_objects⟩

theorem executed_resolveTarget (sound : Sound first session) (name : String) :
    Executed first session (resolveTarget name) fun target after =>
      after = session ∧ ∀ o, target = some o → o ∈ session.heap.roots.objects := by
  rw [resolveTarget]
  split
  · exact .pure sound ⟨rfl, nofun⟩
  · refine (executed_resolve sound name).bind ?_
    rintro object _ sound ⟨rfl, rooted⟩
    refine .pure sound ⟨rfl, ?_⟩
    rintro _ ⟨⟩
    exact rooted

theorem executed_slotOffset (sound : Sound first session) (name : String) {object : Ref}
    (member : object ∈ session.heap.objects.toList) (word : String) :
    Executed first session (slotOffset name object word) fun offset after =>
      after = session ∧ offset.toNat ∈
        (Kind.of session.heap object).offsets (Kind.lengthOf session.heap object) := by
  refine (executed_readNumber sound word).bind ?_
  rintro slot _ sound rfl
  obtain ⟨_, _, readable⟩ := sound.upright.readable member
  obtain ⟨found, looked, place⟩ := Kind.exists_slotOffset sound.upright.types readable slot
  refine (Executed.lift (carried_look sound looked)).bind ?_
  rintro found _ sound ⟨rfl, rfl⟩
  cases found with
  | none => exact .throw sound _
  | some offset => exact .pure sound ⟨rfl, List.mem_of_getElem? place.symm⟩

theorem executed_makeSized (fresh : RawMemory.Fresh first) (sound : Sound first session)
    (kind : Kind) (item : Word) (name length : String) :
    Executed first session (makeSized kind item name length) fun _ _ => True := by
  refine (executed_readNumber sound length).bind fun length after sound _ => ?_
  refine (executed_allocate fresh sound rfl).bind fun object after sound allocated => ?_
  refine (Executed.lift (carried_bindName sound name allocated.1)).bind fun _ _ sound _ => ?_
  exact .pure sound trivial

theorem executed_run (fresh : RawMemory.Fresh first) (sound : Sound first session)
    (command : Command) :
    Executed first session (run command) fun _ _ => True := by
  cases command with
  | nothing => exact .pure sound trivial
  | cell name =>
    refine (executed_allocate fresh sound rfl).bind fun object after sound allocated => ?_
    refine (Executed.lift (carried_bindName sound name allocated.1)).bind fun _ _ sound _ => ?_
    exact .pure sound trivial
  | vector name length => exact executed_makeSized fresh sound _ _ _ _
  | blob name length => exact executed_makeSized fresh sound _ _ _ _
  | weak name target =>
    refine (executed_resolveTarget sound target).bind ?_
    rintro target _ sound ⟨rfl, rooted⟩
    refine (executed_allocate fresh sound rfl).bind ?_
    rintro object after sound ⟨member, typeId, roots⟩
    have kind : Kind.of after.heap object = .weak := by
      rw [Kind.of, typeId]
      exact Kind.ofTypeId_typeId .weak
    -- the allocation may have collected, but what the target name is bound to is a root
    have live : ∀ o, target = some o → o ∈ after.heap.objects.toList := fun o same =>
      sound.upright.mem_of_rooted (roots ▸ rooted o same)
    refine (Executed.lift (carried_writeRef sound member ?_ live)).bind ?_
    · rw [kind]
      exact List.mem_singleton.mpr rfl
    · intro _ after sound same
      refine (Executed.lift (carried_bindName sound name (same ▸ member))).bind
        fun _ _ sound _ => ?_
      exact executed_get_bind (.pure sound trivial)
  | finalizable name light =>
    refine (executed_allocate fresh sound rfl).bind fun object after sound allocated => ?_
    refine (Executed.lift (carried_bindName sound name allocated.1)).bind fun _ _ sound _ => ?_
    exact .pure sound trivial
  | set name slot target =>
    refine (executed_resolve sound name).bind ?_
    rintro object _ sound ⟨rfl, rooted⟩
    have member := sound.upright.mem_of_rooted rooted
    refine (executed_slotOffset sound name member slot).bind ?_
    rintro offset _ sound ⟨rfl, inside⟩
    refine (executed_resolveTarget sound target).bind ?_
    rintro target _ sound ⟨rfl, live⟩
    refine (Executed.lift (carried_writeRef sound member inside fun o same =>
      sound.upright.mem_of_rooted (live o same))).bind fun _ _ sound _ => ?_
    exact executed_get_bind (.pure sound trivial)
  | get name slot =>
    refine (executed_resolve sound name).bind ?_
    rintro object _ sound ⟨rfl, rooted⟩
    have member := sound.upright.mem_of_rooted rooted
    refine (executed_slotOffset sound name member slot).bind ?_
    rintro offset _ sound ⟨rfl, inside⟩
    refine (Executed.lift (carried_look sound
      (readRef_eq_ok sound.upright member inside))).bind fun _ _ sound _ => ?_
    exact executed_get_bind (.pure sound trivial)
  | drop name =>
    cases bound : session.bindings[name]? with
    | none =>
      refine executed_get_bind ?_
      simp only [bound]
      exact .throw sound _
    | some root =>
      obtain ⟨roots, ran, sound, _⟩ := exists_drop sound bound
      exact ⟨_, _, ran, sound, Nat.le_refl _, fun _ _ => trivial⟩
  | roots => exact executed_get_bind (.pure sound trivial)
  | collect =>
    refine executed_get_bind ((Executed.lift (carried_collect sound)).bind fun _ _ sound _ => ?_)
    exact executed_get_bind (.pure sound trivial)
  | stats => exact executed_get_bind (.pure sound trivial)
  | help => exact .pure sound trivial

theorem carried_execute (fresh : RawMemory.Fresh first) (sound : Sound first session)
    (line : String) : Carried first session (execute line) fun _ _ => True := by
  have ran : Carried first session
      ((do run (← (Command.ofLine line))) : CommandM μ (List String)).run fun _ _ => True := by
    cases Command.ofLine line with
    | error error => exact .pure sound trivial
    | ok command =>
      obtain ⟨result, after, ran, sound, less, _⟩ := executed_run fresh sound command
      exact ⟨result, after, ran, sound, less, trivial⟩
  -- an error ends the command but not the line: labels are forgotten and reports taken either way
  refine carried_get_bind (ran.bind fun result after sound _ => carried_get_bind ?_)
  have printed {session : Session μ} (sound : Sound first session) :
      Carried first session
        (do
          let messages := (← get).heap.host.messages.toList
          onReports fun reports => { reports with messages := #[] }
          return result.map fun lines => messages ++ lines) fun _ _ => True :=
    carried_get_bind ((carried_onReports sound rfl).bind fun _ _ sound _ => .pure sound trivial)
  split
  · refine Carried.bind (carried_get_bind (carried_onReports sound rfl)) ?_
    exact fun _ _ sound _ => printed sound
  · exact printed sound

theorem carried_lines (fresh : RawMemory.Fresh first) (sound : Sound first session)
    (lines : List String) :
    Carried first session (lines.mapM execute) fun results _ => results.length = lines.length := by
  induction lines generalizing session with
  | nil => exact .pure sound rfl
  | cons line rest ih =>
    rw [List.mapM_cons]
    refine (carried_execute fresh sound line).bind fun result _ sound _ => ?_
    refine (ih sound).bind fun results _ sound length => ?_
    exact .pure sound (congrArg (· + 1) length)

end Commands

def started (growth : Growth) (memory : μ) : Session μ where
  collector := ⟨{ growth, types := Kind.types, host := { memory } }, reporters⟩

omit [RawMemory μ] in
theorem create_eq_ok {growth : Growth} (valid : growth.isValid = true) (memory : μ) :
    create growth memory = .ok (started growth memory) := by
  rw [create, Collector.create, Heap.create, Growth.validate, if_pos valid]
  rfl

theorem sound_started (growth : Growth) (memory : μ) : Sound memory (started growth memory) where
  upright := .create growth memory
  idle := rfl
  callbacks := rfl
  bound := by
    intro name root found
    simp [started] at found
  distinct := by
    intro name other root found
    simp [started] at found

/-- Between calls the heap is idle. Each bound name has a root slot of its own, which holds an
    object of the registry, and so does every slot of an object of the registry, unless it is empty.
-/
structure Intact (session : Session μ) : Prop where
  idle : session.heap.collecting = false
  bound : ∀ (name : String) root, session.bindings[name]? = some root →
    ∃ object ∈ session.heap.objects.toList, session.heap.roots.Holds root object
  apart : ∀ (name other : String) root slot, session.bindings[name]? = some root →
    session.bindings[other]? = some slot → name ≠ other → root ≠ slot
  slots : ∀ object ∈ session.heap.objects.toList, ∀ offset ∈
    (Kind.of session.heap object).offsets (Kind.lengthOf session.heap object),
    (session.heap.memory.payload object).readWord offset = 0 ∨
      ∃ target ∈ session.heap.objects.toList,
        (session.heap.memory.payload object).readWord offset = target.word

theorem Sound.intact (sound : Sound first session) : Intact session where
  idle := sound.idle
  bound := by
    intro name root found
    obtain ⟨object, holds⟩ := sound.bound name root found
    exact ⟨object, sound.upright.mem_of_rooted holds.mem_objects, holds⟩
  apart := by
    rintro name other root _ found found' different rfl
    exact different (sound.distinct name other root found found')
  slots := fun _ member _ slot => sound.upright.slot_held member slot

/-- Whatever lines a session is given, each of them is answered, with an error or with what to
    print, and leaves the session intact. One more line then never takes the count of cleared weak
    references back, so the difference that a collection reports is the number that it cleared. -/
def Endures (session : Session μ) : Prop :=
  ∀ lines : List String, ∃ results after, lines.mapM execute session = .ok results after ∧
    results.length = lines.length ∧ Intact after ∧
    ∀ line, ∃ result next, execute line after = .ok result next ∧
      after.heap.stats.weakrefsCleared ≤ next.heap.stats.weakrefsCleared

/-- A session over a raw memory that keeps its side of the contract goes on for ever. -/
theorem create_endures (growth : Growth) (memory : μ) (valid : growth.isValid = true)
    (fresh : RawMemory.Fresh memory) :
    ∃ session, create growth memory = .ok session ∧ Endures session := by
  refine ⟨started growth memory, create_eq_ok valid memory, fun lines => ?_⟩
  obtain ⟨results, after, ran, sound, _, length⟩ :=
    carried_lines fresh (sound_started growth memory) lines
  refine ⟨results, after, ran, length, sound.intact, fun line => ?_⟩
  obtain ⟨result, next, executed, _, less, _⟩ := carried_execute fresh sound line
  exact ⟨result, next, executed, less⟩

theorem create_endures_system :
    ({} : Growth).isValid = true ∧ RawMemory.Fresh ({} : SystemMemory) ∧
      ∃ session : Session SystemMemory, create {} {} = .ok session ∧ Endures session :=
  ⟨by decide +kernel, SystemMemory.fresh {},
    create_endures {} ({} : SystemMemory) (by decide +kernel) (SystemMemory.fresh {})⟩

example : (create {} ({} : SystemMemory)).toOption.map (fun session =>
    let lines := ["cell a", "weak w a", "drop a", "set a 0 w", "collect", "get w 0"]
    match lines.mapM execute session with
    | .ok results _ => results.map Except.toOption
    | .error _ _ => []) =
    some [some ["a = cell"], some ["w = weak -> a"], some ["dropped a"], none,
      some ["freed 1 objects (24 bytes), cleared 1 weak refs, heap size 16"],
      some ["w.0 = nil"]] := by
  decide +kernel

end Reclaim.Console.Session
