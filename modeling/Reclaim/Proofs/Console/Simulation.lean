import Reclaim.Proofs.Console.Mirror

namespace Reclaim.Console

namespace Store

variable {α β : Type} {store after : Store} {model : StoreM α} {rest : α → StoreM β}

theorem run_bind_of_ok {value : α} (ran : model.run.run store = (.ok value, after)) :
    (model >>= rest).run.run store = (rest value).run.run after := by
  rw [ExceptT.run_bind, StateT.run_bind, ran]
  rfl

theorem run_bind_of_error {error : ConsoleError}
    (ran : model.run.run store = (.error error, after)) :
    (model >>= rest).run.run store = (.error error, after) := by
  rw [ExceptT.run_bind, StateT.run_bind, ran]
  rfl

theorem run_get_bind {rest : Store → StoreM β} :
    (get >>= rest).run.run store = (rest store).run.run store :=
  rfl

end Store

namespace Session

variable {μ : Type} [RawMemory μ] {first : μ} {session after : Session μ} {store : Store}
  {place : Ref → Nat}

def command (line : String) : CommandM μ (List String) := do
  run (← Command.ofLine line)

section Reads

variable {α β γ δ : Type}

def Reads (session : Session μ) (store : Store) (command : CommandM μ α) (model : StoreM β)
    (post : α → β → Prop) : Prop :=
  (∃ value expected, command.run session = .ok (.ok value) session ∧
      model.run.run store = (.ok expected, store) ∧ post value expected) ∨
    ∃ error, command.run session = .ok (.error error) session ∧
      model.run.run store = (.error error, store)

variable {command : CommandM μ α} {model : StoreM β} {post : α → β → Prop}
  {rest : α → CommandM μ γ} {modelRest : β → StoreM δ} {goal : γ → δ → Prop}

omit [RawMemory μ] in
theorem Reads.bind (h : Reads session store command model post)
    (follow : ∀ value expected, post value expected →
      Reads session store (rest value) (modelRest expected) goal) :
    Reads session store (command >>= rest) (model >>= modelRest) goal := by
  rcases h with ⟨value, expected, ran, found, held⟩ | ⟨error, ran, failed⟩
  · rw [Reads, run_bind_of_ok ran, Store.run_bind_of_ok found]
    exact follow value expected held
  · exact .inr ⟨error, run_bind_of_error ran, Store.run_bind_of_error failed⟩

omit [RawMemory μ] in
theorem Reads.pure {value : α} {expected : β} (held : post value expected) :
    Reads session store (pure value) (pure expected) post :=
  .inl ⟨value, expected, rfl, rfl, held⟩

omit [RawMemory μ] in
theorem Reads.throw (error : ConsoleError) :
    Reads session store (throw error : CommandM μ α) (throw error : StoreM β) post :=
  .inr ⟨error, rfl, rfl⟩

omit [RawMemory μ] in
theorem reads_number (word : String) :
    Reads session store (readNumber word) (Store.readNumber word) Eq := by
  rw [readNumber, Store.readNumber]
  cases Text.readWord? word with
  | none => exact .throw _
  | some number => exact .pure rfl

variable (mirrors : Mirrors place store session session.heap.objects.toList)

include mirrors in
omit [RawMemory μ] in
theorem reads_resolve (name : String) :
    Reads session store (resolve name) (Store.resolve name) fun object expected =>
      session.lookup name = some object ∧ store.bindings[name]? = some expected ∧
        expected = place object := by
  have bound := mirrors.bound name
  rw [lookup] at bound ⊢
  cases found : session.bindings[name]?.bind session.heap.roots.get with
  | none =>
    rw [found] at bound
    refine .inr ⟨.unknownName name, ?_, ?_⟩
    · rw [resolve, run_get_bind, found]
      rfl
    · rw [Store.resolve, Store.run_get_bind, bound]
      rfl
  | some object =>
    rw [found] at bound
    refine .inl ⟨object, place object, ?_, ?_, rfl, bound, rfl⟩
    · rw [resolve, run_get_bind, found]
      rfl
    · rw [Store.resolve, Store.run_get_bind, bound]
      rfl

include mirrors in
omit [RawMemory μ] in
theorem reads_target (name : String) :
    Reads session store (resolveTarget name) (Store.resolveTarget name) fun target expected =>
      expected = target.map place ∧
        ∀ o, target = some o → o ∈ session.heap.roots.objects := by
  rw [resolveTarget, Store.resolveTarget]
  split
  · refine .pure ⟨rfl, ?_⟩
    rintro _ ⟨⟩
  · refine (reads_resolve mirrors name).bind ?_
    rintro object _ ⟨found, _, rfl⟩
    refine .pure ⟨rfl, ?_⟩
    rintro _ ⟨⟩
    exact mem_roots_of_lookup found

include mirrors in
theorem reads_slot (sound : Sound first session) (name : String) {object : Ref}
    (member : object ∈ session.heap.objects.toList) (word : String) :
    Reads session store (slotOffset name object word) (Store.slotOf name (place object) word)
      fun offset index => ((Kind.of session.heap object).offsets
        (Kind.lengthOf session.heap object))[index]? = some offset.toNat := by
  refine (reads_number word).bind ?_
  rintro slot _ rfl
  obtain ⟨_, _, readable⟩ := sound.upright.readable member
  obtain ⟨found, looked, position⟩ := Kind.exists_slotOffset sound.upright.types readable slot
  have size : ((Kind.of session.heap object).offsets
      (Kind.lengthOf session.heap object)).length = (store.item (place object)).slots.size := by
    rw [← (mirrors.depicts object member).length_contents, Kind.contents, Kind.length_held]
    rfl
  rw [Reads, run_bind_of_ok (run_lift (look_of_ok looked)), Store.run_get_bind, ← size]
  cases found with
  | none =>
    rw [if_neg (Nat.not_lt.mpr (List.getElem?_eq_none_iff.mp position.symm))]
    exact .inr ⟨.badSlot name slot, rfl, rfl⟩
  | some offset =>
    rw [if_pos (List.getElem?_eq_some_iff.mp position.symm).1]
    exact .inl ⟨offset, slot.toNat, rfl, rfl, position.symm⟩

end Reads

def Weighed (heap : Heap (Reports μ)) : Prop :=
  ∀ entry ∈ heap.finalizers.toList, entry.queue = queueOf entry.light

structure Mirrored (store : Store) (session : Session μ) : Prop where
  weighed : Weighed session.heap
  mirrors : ∃ place, Mirrors place store session session.heap.objects.toList

def Refused (heap : Heap (Reports μ)) : Prop :=
  ∃ size error, Event.requested size (.error error) ∈ heap.journal.toList

section Requests

theorem accept_cell {finalizer : Option Finalizer}
    (known : ∀ f, finalizer = some f → f.queue.index < 2) :
    (Request.fixed Kind.cell.typeId 16 finalizer false).accept Kind.types 2 = .ok 24 := by
  cases finalizer with
  | none => rfl
  | some finalizer =>
    have inside : ¬ 2 ≤ finalizer.queue.index := Nat.not_le.mpr (known finalizer rfl)
    simp only [Request.accept, Request.typeId, Request.finalizer, Kind.get?_types, if_neg inside]
    rfl

theorem accept_weak :
    (Request.fixed Kind.weak.typeId 8 none true).accept Kind.types 2 = .ok 16 :=
  rfl

theorem isSome_cost {item : Word} (length : Word) :
    ((Layout.varsize 8 item 0).payloadSize? length >>= allocationCost?).isSome = true ↔
      item.toNat * length.toNat + 24 ≤ UInt64.size := by
  have eight : (8 : Word).toNat = 8 := rfl
  have header : headerSize.toNat = 8 := rfl
  have seven : (7 : Word).toNat = 7 := rfl
  simp only [Layout.payloadSize?, Option.bind_eq_bind]
  cases multiplied : Word.mul? item length with
  | none =>
    have large := Word.mul?_eq_none.mp multiplied
    simp only [Option.bind_none, Option.isSome_none, Bool.false_eq_true, false_iff]
    omega
  | some bytes =>
    rw [Word.mul?_eq_some.mp multiplied]
    cases added : Word.add? bytes 8 with
    | none =>
      have large := Word.add?_eq_none.mp added
      simp only [Option.bind_some, added, Option.bind_none, Option.isSome_none, Bool.false_eq_true,
        false_iff]
      omega
    | some size =>
      have size_eq := Word.add?_eq_some.mp added
      simp only [Option.bind_some, added, allocationCost?, Option.bind_eq_bind]
      cases headed : Word.add? headerSize size with
      | none =>
        have large := Word.add?_eq_none.mp headed
        simp only [Option.bind_none, Option.isSome_none, Bool.false_eq_true, false_iff]
        omega
      | some total =>
        have total_eq := Word.add?_eq_some.mp headed
        simp only [Option.bind_some, Word.alignUp?, Option.isSome_map, Word.add?]
        split
        · simp only [Option.isSome_some, true_iff]
          omega
        · simp only [Option.isSome_none, Bool.false_eq_true, false_iff]
          omega

theorem accept_sized {kind : Kind} {item : Word} (layout : kind.layout = .varsize 8 item 0)
    (length : Word) :
    (item.toNat * length.toNat + 24 ≤ UInt64.size ∧ ∃ cost,
        (Request.varsize kind.typeId length 8 item 0).accept Kind.types 2 = .ok cost) ∨
      (¬ item.toNat * length.toNat + 24 ≤ UInt64.size ∧
        (Request.varsize kind.typeId length 8 item 0).accept Kind.types 2 =
          .error .outOfMemory) := by
  have matched : kind.descriptor.layout = .varsize 8 item 0 := by
    cases kind <;> exact layout
  have agreed : ¬ (kind.descriptor.layout ≠ .varsize 8 item 0 ∨
      (false = true ∧ kind.descriptor.weakOffset.isNone = true)) := by
    simp [matched]
  rw [← isSome_cost length]
  simp only [Request.accept, Request.typeId, Request.layout, Request.weakSlot, Request.finalizer,
    Request.length, Kind.get?_types]
  cases (Layout.varsize 8 item 0).payloadSize? length >>= allocationCost? with
  | none => exact .inr ⟨Bool.false_ne_true, if_neg agreed⟩
  | some cost => exact .inl ⟨rfl, cost, if_neg agreed⟩

end Requests

section Allocations

structure Placed (place : Ref → Nat) (store : Store) (session : Session μ) (object : Ref)
    (objects : List Ref) : Prop where
  weighed : Weighed session.heap
  mirrors : Mirrors place store session objects
  registry : session.heap.objects.toList = objects ++ [object]
  fresh : object ∉ objects
  closed : ∀ o ∈ objects, ∀ target, some target ∈ Kind.contents session.heap o → target ∈ objects
  rooted : ∀ o ∈ session.heap.roots.objects, o ∈ objects

theorem run_allocate_of_rejected (fresh : RawMemory.Fresh first) (sound : Sound first session)
    {request : Request} (internal : request.isExternal = false) {error : AllocError}
    (rejected : request.accept Kind.types 2 = .error error) :
    (allocate request).run session = .ok (.error (.allocation error)) session := by
  obtain ⟨answer, heap, ran, _, allocated⟩ := exists_run_allocate fresh sound internal
  rw [← sound.upright.types] at rejected
  cases allocated with
  | rejected found =>
    cases found.symm.trans rejected
    rw [ran, ← sound.collector_eq]
    rfl
  | refused accepted => cases accepted.symm.trans rejected
  | granted accepted => cases accepted.symm.trans rejected

theorem placed_of_granted (weighed : Weighed session.heap)
    (mirrors : Mirrors place store session session.heap.objects.toList)
    {ready heap : Heap (Reports μ)} {events : List Event}
    (collected : Collected first session.heap ready events) {request : Request} {cost : Word}
    {object : Ref} (granted : ready.Granted heap request cost object)
    (unused : object ∉ ready.objects.toList) (internal : request.isExternal = false)
    (queue : ∀ finalizer, request.finalizer = some finalizer →
      finalizer.queue = queueOf finalizer.light) :
    Placed place store { session with collector := ⟨heap, reporters⟩ } object
      ready.objects.toList where
  weighed := by
    intro entry member
    change entry ∈ heap.finalizers.toList at member
    rw [granted.finalizers, List.mem_append] at member
    rcases member with old | new
    · exact weighed entry (collected.finalizers entry old)
    · obtain ⟨finalizer, wanted, rfl⟩ := Request.mem_entries.mp new
      exact queue finalizer wanted
  mirrors := by
    have roots : heap.roots = session.heap.roots := granted.roots.trans collected.roots
    refine mirrors.of_lasts collected.objects (fun o member => ?_) (lookup_of_roots roots)
    have apart : object ≠ o := fun same => unused (same ▸ member)
    exact (collected.lasts o).trans (lasts_of_granted granted apart)
  registry := by
    change heap.objects.toList = _
    rw [granted.objects, internal]
    rfl
  fresh := unused
  closed := by
    intro o member target held
    have apart : object ≠ o := fun same => unused (same ▸ member)
    exact collected.upright.closed member ((Kind.kept_of_granted granted apart).mem_contents held)
  rooted := by
    intro o member
    change o ∈ heap.roots.objects at member
    rw [granted.roots] at member
    exact collected.upright.mem_of_rooted member

theorem exists_placed (fresh : RawMemory.Fresh first) (sound : Sound first session)
    (weighed : Weighed session.heap)
    (mirrors : Mirrors place store session session.heap.objects.toList) {request : Request}
    {cost : Word} (accepted : request.accept Kind.types 2 = .ok cost)
    (internal : request.isExternal = false) (kind : Kind) (typeId : request.typeId = kind.typeId)
    (queue : ∀ finalizer, request.finalizer = some finalizer →
      finalizer.queue = queueOf finalizer.light) :
    ∃ result after events, (allocate request).run session = .ok result after ∧
      Sound first after ∧ Reported session.heap after.heap events ∧
      ((∃ error, result = .error (.allocation (.allocationFailed error)) ∧ Refused after.heap ∧
          Mirrored store after) ∨
        ∃ object objects, result = .ok object ∧ Placed place store after object objects ∧
          after.heap.roots = session.heap.roots ∧ Kind.of after.heap object = kind ∧
          Kind.contents after.heap object = kind.held request.payload) := by
  obtain ⟨answer, heap, ran, sound', allocated⟩ := exists_run_allocate fresh sound internal
  have roots := allocated.roots
  cases allocated with
  | rejected rejected =>
    rw [sound.upright.types, accepted] at rejected
    cases rejected
  | @refused cost ready events error host _ collected answered =>
    refine ⟨_, _, _, ran, sound', collected.reported.silent (.of_refused answered) rfl,
      .inl ⟨error, rfl, ⟨cost, error, ?_⟩, ?_, place, ?_⟩⟩
    · exact Array.mem_toList_iff.mpr Array.mem_push_self
    · exact fun entry member => weighed entry (collected.finalizers entry member)
    · -- what the collection before the request has left still stands for the same objects
      exact mirrors.of_lasts collected.objects
        (fun o _ => (collected.lasts o).trans (lasts_of_refused answered o)) (lookup_of_roots roots)
  | granted _ collected granted unused =>
    obtain ⟨kind_eq, contents⟩ := Kind.of_granted granted typeId
    exact ⟨_, _, _, ran, sound', collected.reported.silent (.of_granted granted) rfl,
      .inr ⟨_, _, rfl, placed_of_granted weighed mirrors collected granted unused internal queue,
        roots, kind_eq, contents⟩⟩

omit [RawMemory μ] in
theorem Placed.mem_objects {object : Ref} {objects : List Ref}
    (placed : Placed place store session object objects) :
    object ∈ session.heap.objects.toList := by
  rw [placed.registry]
  exact List.mem_append_right _ (List.mem_singleton.mpr rfl)

omit [RawMemory μ] in
theorem Placed.mem_of_old {object : Ref} {objects : List Ref}
    (placed : Placed place store session object objects) {o : Ref} (old : o ∈ objects) :
    o ∈ session.heap.objects.toList := by
  rw [placed.registry]
  exact List.mem_append_left _ old

omit [RawMemory μ] in
theorem Placed.of_wrote {object : Ref} {objects : List Ref}
    (placed : Placed place store session object objects) {heap : Heap (Reports μ)}
    {offset : Nat} {bytes : List UInt8} (wrote : session.heap.Wrote heap object offset bytes) :
    Placed place store { session with collector := ⟨heap, reporters⟩ } object objects := by
  have after_eq := wrote.after_eq
  have kept {o : Ref} (member : o ∈ objects) : Kind.Kept session.heap heap o :=
    Kind.kept_of_wrote wrote fun same => placed.fresh (same ▸ member)
  subst after_eq
  exact {
    weighed := placed.weighed
    mirrors := placed.mirrors.of_lasts (fun _ member => member)
      (fun o member => ⟨kept member, rfl, rfl⟩) fun _ => rfl
    registry := placed.registry
    fresh := placed.fresh
    closed := fun o member target held =>
      placed.closed o member target ((kept member).mem_contents held)
    rooted := placed.rooted }

theorem Placed.bind {object : Ref} {objects : List Ref}
    (placed : Placed place store session object objects) (sound : Sound first session)
    (item : Item) (kind : Kind.of session.heap object = item.kind)
    (slots : (Kind.contents session.heap object).map (Option.map place) = item.slots.toList)
    (targets : ∀ target, some target ∈ Kind.contents session.heap object → target ∈ objects) :
    ∃ after event, bindName item.name object session = .ok () after ∧ Sound first after ∧
      Told session.heap after.heap [event] ∧ event.call? = none ∧
      Mirrored (store.add item) after ∧
      ∀ target, (∀ o, target = some o → o ∈ objects) →
        after.describe target = (store.add item).describe (target.map place) := by
  obtain ⟨roots, bindings, ran, sound_after, lookup⟩ :=
    exists_bindName sound item.name placed.mem_objects
  have rooted (name : String) (o : Ref) (found : session.lookup name = some o) : o ∈ objects :=
    placed.rooted o (mem_roots_of_lookup found)
  have mirrors := placed.mirrors.add placed.closed rooted placed.fresh kind slots targets lookup
  refine ⟨_, .logged (.bound item.name object), ran, sound_after, .event rfl rfl rfl rfl, rfl,
    ⟨placed.weighed, Function.update place object store.items.size, ?_⟩, ?_⟩
  · change Mirrors _ _ _ session.heap.objects.toList
    rw [placed.registry]
    exact mirrors
  · intro target inside
    rw [mirrors.describe_eq fun o same => List.mem_append_left _ (inside o same)]
    cases target with
    | none => rfl
    | some o =>
      have apart : o ≠ object := fun same => placed.fresh (same ▸ inside o rfl)
      rw [Option.map_some, Option.map_some, Function.update_of_ne apart]

end Allocations

end Session

end Reclaim.Console
