import Reclaim.Proofs.Console.Simulation

namespace Reclaim.Console.Session

variable {μ : Type} [RawMemory μ] {first : μ} {session : Session μ} {store : Store}

section Simulates

variable {agree : Except ConsoleError (List String) → Except ConsoleError (List String) → Prop}
  {command : CommandM μ (List String)} {model : StoreM (List String)}

/-- A command does to the session what it does to the store, and the answers agree; if the answer is
    an error, no finalizer was called. Otherwise the raw memory has refused a request, and for the
    store nothing has happened. -/
def Simulates (first : μ) (session : Session μ) (store : Store)
    (agree : Except ConsoleError (List String) → Except ConsoleError (List String) → Prop)
    (command : CommandM μ (List String)) (model : StoreM (List String)) : Prop :=
  ∃ own after events, command.run session = .ok own after ∧ Sound first after ∧
    Reported session.heap after.heap events ∧
    ((agree own (model.run.run store).1 ∧ Mirrored (model.run.run store).2 after ∧
        ∀ error, own = .error error → finalizerCalls events = []) ∨
      ((∃ error, own = .error (.allocation (.allocationFailed error))) ∧ Refused after.heap ∧
        Mirrored store after))

theorem simulates_of_ok {after : Session μ} {next : Store} {events : List Event}
    {lines : List String} {expected : Except ConsoleError (List String)}
    (ran : command.run session = .ok (.ok lines) after) (sound : Sound first after)
    (reported : Reported session.heap after.heap events)
    (found : model.run.run store = (expected, next)) (agreed : agree (.ok lines) expected)
    (mirrored : Mirrored next after) : Simulates first session store agree command model := by
  refine ⟨.ok lines, after, events, ran, sound, reported, .inl ?_⟩
  rw [found]
  refine ⟨agreed, mirrored, ?_⟩
  rintro _ ⟨⟩

theorem simulates_of_unchanged (sound : Sound first session) (mirrored : Mirrored store session)
    {own expected : Except ConsoleError (List String)} (ran : command.run session = .ok own session)
    (found : model.run.run store = (expected, store)) (agreed : agree own expected) :
    Simulates first session store agree command model := by
  refine ⟨own, session, [], ran, sound, .refl, .inl ?_⟩
  rw [found]
  exact ⟨agreed, mirrored, fun _ _ => rfl⟩

theorem simulates_of_refused {α : Type} {part : CommandM μ α} {rest : α → CommandM μ (List String)}
    {after : Session μ} {events : List Event} {error : ChunkError}
    (ran : part.run session = .ok (.error (.allocation (.allocationFailed error))) after)
    (sound : Sound first after) (reported : Reported session.heap after.heap events)
    (refused : Refused after.heap) (mirrored : Mirrored store after) :
    Simulates first session store agree (part >>= rest) model :=
  ⟨_, after, events, run_bind_of_error ran, sound, reported, .inr ⟨⟨error, rfl⟩, refused, mirrored⟩⟩

theorem Reads.simulates {α β : Type} {part : CommandM μ α} {modelPart : StoreM β}
    {post : α → β → Prop} {rest : α → CommandM μ (List String)}
    {modelRest : β → StoreM (List String)} (h : Reads session store part modelPart post)
    (sound : Sound first session) (mirrored : Mirrored store session)
    (errors : ∀ error, agree (.error error) (.error error))
    (follow : ∀ value expected, post value expected →
      Simulates first session store agree (rest value) (modelRest expected)) :
    Simulates first session store agree (part >>= rest) (modelPart >>= modelRest) := by
  rcases h with ⟨value, expected, ran, found, held⟩ | ⟨error, ran, failed⟩
  · rw [Simulates, run_bind_of_ok ran, Store.run_bind_of_ok found]
    exact follow value expected held
  · exact simulates_of_unchanged sound mirrored (run_bind_of_error ran)
      (Store.run_bind_of_error failed) (errors error)

theorem simulates_make (fresh : RawMemory.Fresh first) (sound : Sound first session)
    (mirrored : Mirrored store session) {request : Request} {cost : Word}
    (accepted : request.accept Kind.types 2 = .ok cost) (internal : request.isExternal = false)
    (item : Item) (typeId : request.typeId = item.kind.typeId)
    (queue : ∀ finalizer, request.finalizer = some finalizer →
      finalizer.queue = queueOf finalizer.light) {n : Nat}
    (held : item.kind.held request.payload = List.replicate n none)
    (slots : item.slots = .replicate n none) (lines : List String) :
    Simulates first session store Eq
      (do
        let object ← allocate request
        ExceptT.lift (bindName item.name object)
        return lines)
      (do
        modify (Store.add item)
        return lines) := by
  obtain ⟨place, mirrors⟩ := mirrored.mirrors
  obtain ⟨result, after, events, ran, sound', reported, outcome⟩ :=
    exists_placed fresh sound mirrored.weighed mirrors accepted internal _ typeId queue
  rcases outcome with ⟨error, rfl, refused, mirrored'⟩ |
    ⟨object, objects, rfl, placed, _, kind, empty⟩
  · exact simulates_of_refused ran sound' reported refused mirrored'
  · rw [held] at empty
    have alike : (Kind.contents after.heap object).map (Option.map place) = item.slots.toList := by
      rw [empty, slots, List.map_replicate, Array.toList_replicate]
      rfl
    have targets (target : Ref) (member : some target ∈ Kind.contents after.heap object) :
        target ∈ objects := by
      rw [empty] at member
      cases List.eq_of_mem_replicate member
    obtain ⟨final, event, bound, sound'', told, uncalled, mirrored', _⟩ :=
      placed.bind sound' item kind alike targets
    refine simulates_of_ok ?_ sound''
      (reported.silent told (List.filterMap_cons_none uncalled)) rfl rfl mirrored'
    rw [run_bind_of_ok ran]
    exact run_bind_of_ok (run_lift bound)

theorem simulates_makeSized (fresh : RawMemory.Fresh first) (sound : Sound first session)
    (mirrored : Mirrored store session) {kind : Kind} {item : Word}
    (layout : kind.layout = .varsize 8 item 0) (slots : Nat)
    (sized : Store.sized kind = (item.toNat, slots))
    (held : ∀ length : Word, kind.held (Payload.zero.writeWord 0 length) =
      List.replicate (slots * length.toNat) none) (name length : String) :
    Simulates first session store Eq (makeSized kind item name length)
      (Store.makeSized kind name length) := by
  rw [makeSized, Store.makeSized]
  refine (reads_number length).simulates sound mirrored (fun _ => rfl) ?_
  rintro length _ rfl
  simp only [sized, Store.checkSize]
  rcases accept_sized layout length with ⟨fits, cost, accepted⟩ | ⟨large, rejected⟩
  · rw [if_pos fits]
    exact simulates_make fresh sound mirrored accepted rfl
      { name, kind, slots := .replicate (slots * length.toNat) none } rfl
      (fun _ wanted => by cases wanted) (held length) rfl _
  · rw [if_neg large]
    have refused := run_allocate_of_rejected fresh sound rfl rejected
    exact simulates_of_unchanged sound mirrored (run_bind_of_error refused) rfl rfl

theorem simulates_weak (fresh : RawMemory.Fresh first) (sound : Sound first session)
    (mirrored : Mirrored store session) (name target : String) :
    Simulates first session store Eq (run (.weak name target)) (Store.run (.weak name target)) := by
  obtain ⟨place, mirrors⟩ := mirrored.mirrors
  rw [run, Store.run]
  refine (reads_target mirrors target).simulates sound mirrored (fun _ => rfl) ?_
  rintro target _ ⟨rfl, rooted⟩
  obtain ⟨result, after, events, ran, sound', reported, outcome⟩ :=
    exists_placed fresh sound mirrored.weighed mirrors accept_weak rfl .weak rfl
      fun _ wanted => by cases wanted
  rcases outcome with ⟨error, rfl, refused, mirrored'⟩ |
    ⟨object, objects, rfl, placed, roots, kind, empty⟩
  · exact simulates_of_refused ran sound' reported refused mirrored'
  · -- a collection may have come before the request, but what the target name is bound to is a root
    have inside (o : Ref) (same : target = some o) : o ∈ objects :=
      placed.rooted o (roots ▸ rooted o same)
    have slot : ((Kind.of after.heap object).offsets (Kind.lengthOf after.heap object))[0]? =
        some (0 : Word).toNat := by
      rw [kind]
      rfl
    obtain ⟨heap, wrote, sound'', written⟩ := exists_applied_writeRef sound'
      placed.mem_objects (List.mem_of_getElem? slot) fun o same => placed.mem_of_old (inside o same)
    obtain ⟨kind', contents⟩ := Kind.contents_of_wrote written slot
    have filled : Kind.contents heap object = [target] := by
      rw [contents, empty]
      rfl
    obtain ⟨final, event, bound, sound'', told, uncalled, mirrored', described⟩ :=
      (placed.of_wrote written).bind sound''
        { name, kind := .weak, slots := #[target.map place] } (kind'.trans kind)
        (congrArg (List.map (Option.map place)) filled) fun o held =>
          inside o (List.mem_singleton.mp (filled ▸ held)).symm
    have reported' := (reported.silent (Told.of_wrote written) rfl).silent told
      (List.filterMap_cons_none uncalled)
    refine simulates_of_ok ((run_bind_of_ok ran).trans ((run_bind_of_ok (run_lift wrote)).trans
      ((run_bind_of_ok (run_lift bound)).trans run_get_bind))) sound'' reported' rfl ?_ mirrored'
    rw [described target inside]

theorem simulates_set (sound : Sound first session) (mirrored : Mirrored store session)
    (name slot target : String) :
    Simulates first session store Eq (run (.set name slot target))
      (Store.run (.set name slot target)) := by
  obtain ⟨place, mirrors⟩ := mirrored.mirrors
  rw [run, Store.run]
  refine (reads_resolve mirrors name).simulates sound mirrored (fun _ => rfl) ?_
  rintro object _ ⟨looked, _, rfl⟩
  have member := sound.upright.mem_of_rooted (mem_roots_of_lookup looked)
  refine (reads_slot mirrors sound name member slot).simulates sound mirrored (fun _ => rfl) ?_
  intro offset index found
  refine (reads_target mirrors target).simulates sound mirrored (fun _ => rfl) ?_
  rintro target _ ⟨rfl, rooted⟩
  have live (o : Ref) (same : target = some o) : o ∈ session.heap.objects.toList :=
    sound.upright.mem_of_rooted (rooted o same)
  obtain ⟨heap, ran, sound', wrote⟩ :=
    exists_applied_writeRef sound member (List.mem_of_getElem? found) live
  have written := mirrors.put member reporters found wrote
  have described := written.describe_eq live
  have told := Told.of_wrote wrote
  have finalizers : heap.finalizers = session.heap.finalizers := by rw [wrote.after_eq]
  have objects : heap.objects = session.heap.objects := by rw [wrote.after_eq]
  refine simulates_of_ok ((run_bind_of_ok (run_lift ran)).trans run_get_bind) sound'
    (told.reported rfl) rfl ?_ ⟨?_, place, ?_⟩
  · rw [described]
  · intro entry listed
    exact mirrored.weighed entry (finalizers ▸ listed)
  · rw [← objects] at written
    exact written

theorem simulates_get (sound : Sound first session) (mirrored : Mirrored store session)
    (name slot : String) :
    Simulates first session store (fun own expected => store.Agrees own expected (.get name slot))
      (run (.get name slot)) (Store.run (.get name slot)) := by
  obtain ⟨place, mirrors⟩ := mirrored.mirrors
  rw [run, Store.run]
  refine (reads_resolve mirrors name).simulates sound mirrored (fun _ => .inl rfl) ?_
  rintro object _ ⟨looked, bound, rfl⟩
  have member := sound.upright.mem_of_rooted (mem_roots_of_lookup looked)
  refine (reads_slot mirrors sound name member slot).simulates sound mirrored (fun _ => .inl rfl) ?_
  intro offset index found
  have read := readRef_eq_ok sound.upright member (List.mem_of_getElem? found)
  have shown := Kind.getElem?_held found
  have inside (o : Ref) (same : Ref.ofWord? _ = some o) : o ∈ session.heap.objects.toList :=
    sound.upright.closed member (same ▸ List.mem_of_getElem? shown)
  refine simulates_of_unchanged sound mirrored
    ((run_bind_of_ok (run_lift (look_of_ok read))).trans run_get_bind) rfl ?_
  rcases (mirrors.depicts object member).getElem?_slots shown with same | ⟨weak, empty⟩
  · left
    rw [mirrors.describe_eq inside, same]
  · right
    refine ⟨⟨_, bound, weak⟩, rfl, ?_⟩
    rw [empty]
    rfl

theorem simulates_drop (sound : Sound first session) (mirrored : Mirrored store session)
    (name : String) :
    Simulates first session store Eq (run (.drop name)) (Store.run (.drop name)) := by
  obtain ⟨place, mirrors⟩ := mirrored.mirrors
  cases found : session.bindings[name]? with
  | none =>
    have unbound : store.bindings[name]? = none := by
      rw [mirrors.bound, lookup, found]
      rfl
    have refused : (run (.drop name)).run session = .ok (.error (.unknownName name)) session := by
      rw [run, run_get_bind]
      simp only [found]
      rfl
    refine simulates_of_unchanged sound mirrored refused ?_ rfl
    rw [Store.run, Store.run_get_bind]
    simp only [unbound]
    rfl
  | some root =>
    obtain ⟨object, holds⟩ := sound.bound name root found
    have bound := mirrors.lookup_eq_some (lookup_eq_of_holds found holds)
    obtain ⟨roots, ran, sound', lookup⟩ := exists_drop sound found
    have told : Told session.heap (session.dropped name roots).heap [] := .still rfl rfl rfl
    refine simulates_of_ok ran sound' (told.reported rfl) ?_ rfl
      ⟨mirrored.weighed, place, mirrors.drop lookup⟩
    rw [Store.run, Store.run_get_bind]
    simp only [bound]
    rfl

theorem simulates_collect (sound : Sound first session) (mirrored : Mirrored store session) :
    Simulates first session store (fun _ _ => True) (run .collect) (Store.run .collect) := by
  obtain ⟨place, mirrors⟩ := mirrored.mirrors
  obtain ⟨heap, events, ran, sound', collected⟩ := exists_applied_collect sound
  refine simulates_of_ok (run_get_bind.trans ((run_bind_of_ok (run_lift ran)).trans run_get_bind))
    sound' collected.reported rfl trivial ⟨?_, place, ?_⟩
  · exact fun entry member => mirrored.weighed entry (collected.finalizers entry member)
  · exact mirrors.of_lasts collected.objects (fun o _ => collected.lasts o)
      (lookup_of_roots collected.roots)

theorem simulates_run (fresh : RawMemory.Fresh first) (sound : Sound first session)
    (mirrored : Mirrored store session) (command : Command) :
    Simulates first session store (fun own expected => store.Agrees own expected command)
      (run command) (Store.run command) := by
  cases command with
  | nothing => exact simulates_of_unchanged sound mirrored rfl rfl rfl
  | cell name =>
    refine simulates_make fresh sound mirrored (accept_cell ?_) rfl
      { name, kind := .cell, slots := #[none, none] } rfl ?_ Kind.held_cell rfl _
    · rintro _ ⟨⟩
    · rintro _ ⟨⟩
  | vector name length =>
    refine simulates_makeSized fresh sound mirrored rfl 1 rfl (fun length => ?_) _ _
    rw [Kind.held_vector, Nat.one_mul]
  | blob name length =>
    refine simulates_makeSized fresh sound mirrored rfl 0 rfl (fun length => ?_) _ _
    rw [Kind.held_blob, Nat.zero_mul]
    rfl
  | weak name target => exact simulates_weak fresh sound mirrored name target
  | finalizable name light =>
    refine simulates_make fresh sound mirrored (accept_cell ?_) rfl
      { name, kind := .cell, slots := #[none, none] } rfl ?_ Kind.held_cell rfl _
    · rintro _ ⟨⟩
      cases light <;> decide
    · rintro _ ⟨⟩
      rfl
  | set name slot target => exact simulates_set sound mirrored name slot target
  | get name slot => exact simulates_get sound mirrored name slot
  | drop name => exact simulates_drop sound mirrored name
  | roots =>
    obtain ⟨place, mirrors⟩ := mirrored.mirrors
    refine simulates_of_unchanged sound mirrored run_get_bind rfl ?_
    rw [mirrors.rootLines_eq fun o rooted => sound.upright.mem_of_rooted rooted]
    rfl
  | collect => exact simulates_collect sound mirrored
  | stats => exact simulates_of_unchanged sound mirrored run_get_bind rfl trivial
  | help => exact simulates_of_unchanged sound mirrored rfl rfl rfl

end Simulates

end Reclaim.Console.Session
