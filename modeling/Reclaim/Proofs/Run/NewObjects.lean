import Reclaim.Proofs.Run.ExactSizes

namespace Reclaim

variable {σ : Type}

structure Heap.Makes (before after : Heap σ) (request : Request) (descriptor : Descriptor)
    (o : Ref) : Prop where
  fresh : o ∉ before.live
  unlisted : o ∉ before.finalizerObjects ∧ o ∉ before.weakHolders.toList ∧ o ∉ before.roots.objects
  typeId : (after.memory.header o).typeId = request.typeId
  flags : after.memory.flags o = if request.isExternal then .external else .empty
  view : ∃ size : Word, size.toNat = request.layout.payloadBytes request.length ∧
    after.view o = .ok
      { object := o, typeId := request.typeId, payloadLength := size,
        payload := after.memory.payload o }
  lengthOf : after.lengthOf o = .ok request.length?
  zeros : ∀ offset < request.layout.payloadBytes request.length,
    (∀ base item lengthOffset, request.layout = .varsize base item lengthOffset →
      offset < lengthOffset.toNat ∨ lengthOffset.toNat + 8 ≤ offset) →
    (after.memory.payload o).byte offset = 0
  objects : after.objects.toList =
    before.objects.toList ++ if request.isExternal then [] else [o]
  external : after.external.toList =
    before.external.toList ++ if request.isExternal then [o] else []
  finalizers : after.finalizers.toList = before.finalizers.toList ++
    (request.finalizer.map fun finalizer => ⟨o, finalizer.queue, finalizer.light⟩).toList
  weakHolders : after.weakHolders.toList =
    before.weakHolders.toList ++ if descriptor.weakOffset.isSome then [o] else []
  others : ∀ p ∈ before.live, after.memory.headerWord p = before.memory.headerWord p ∧
    after.memory.payload p = before.memory.payload p

theorem Request.byte_payload {request : Request} {offset : Nat}
    (outside : ∀ base item lengthOffset, request.layout = .varsize base item lengthOffset →
      offset < lengthOffset.toNat ∨ lengthOffset.toNat + 8 ≤ offset) :
    request.payload.byte offset = 0 := by
  cases request with
  | fixed | external => exact Payload.byte_zero offset
  | varsize typeId length base item lengthOffset =>
    rw [payload, Payload.writeWord, Payload.byte_write_of_outside _ _ ?_, Payload.byte_zero]
    rw [Word.length_toBytes]
    exact outside base item lengthOffset rfl

variable [RawMemory σ]

theorem Heap.Granted.makes {before after : Heap σ} {request : Request} {cost : Word} {o : Ref}
    {descriptor : Descriptor} {queues : Nat} (h : before.Granted after request cost o)
    (consistent : before.Consistent) (accounted : before.Accounted)
    (fits : before.ledger.Fits (o, cost)) (fresh : o ∉ before.live)
    (admitted : request.Admitted before.types queues cost descriptor) :
    before.Makes after request descriptor o := by
  have unheld : o ∉ before.weakHolders.toList := fun member =>
    fresh ((consistent.weak_iff o).mp member).1
  have live : o ∈ after.live := (h.mem_live o).mpr (.inr rfl)
  have price : request.cost? = some (after.cost o) := by
    rw [admitted.cost?_eq, Heap.cost_eq_of_ok (h.allocationCost admitted)]
  obtain ⟨descriptor', size, cost', houses⟩ :=
    (h.bears admitted).houses (h.consistent consistent fresh admitted)
      (h.accounted accounted fresh fits admitted) live price
  exact {
    fresh
    unlisted := ⟨fun member => fresh (mem_live_of_objects (consistent.finalizers_mem o member)),
      unheld, fun member => fresh (consistent.roots_live o member)⟩
    typeId := h.typeId
    flags := h.flags
    view := ⟨size, Layout.payloadSize?_eq_some.mp houses.sized, houses.view⟩
    lengthOf := houses.lengthOf
    zeros := by
      intro offset _ outside
      rw [h.payload, if_pos rfl]
      exact Request.byte_payload outside
    objects := h.objects
    external := h.external
    finalizers := h.finalizers
    weakHolders := by
      have slot : request.hasWeakSlot before.types = descriptor.weakOffset.isSome := by
        rw [Request.hasWeakSlot, admitted.known]
        rfl
      rw [h.weakHolders, slot]
      simp only [unheld, not_false_eq_true, and_true]
    others := by
      intro p member
      have other : o ≠ p := by
        rintro rfl
        exact fresh member
      rw [h.headerWord, h.payload, if_neg other, if_neg other]
      exact ⟨rfl, rfl⟩ }

namespace Collector

variable {before : Collector σ} {request : Request} {descriptor : Descriptor}

omit [RawMemory σ] in
theorem accept_iff (known : before.heap.types.get? request.typeId = some descriptor) :
    (∃ cost, request.accept before.heap.types before.queues.size = .ok cost) ↔
      request.Agrees descriptor ∧ request.Queued before.queues.size ∧
        request.totalBytes ≤ 2 ^ 64 - 8 := by
  have suits : request.Suits before.heap.types before.queues.size ↔
      request.Agrees descriptor ∧ request.Queued before.queues.size := by
    constructor
    · rintro ⟨⟨other, found, agrees⟩, queued⟩
      cases known.symm.trans found
      exact ⟨agrees, queued⟩
    · rintro ⟨agrees, queued⟩
      exact ⟨⟨descriptor, known, agrees⟩, queued⟩
  have priced : (∃ cost, request.cost? = some cost) ↔ request.totalBytes ≤ 2 ^ 64 - 8 := by
    rw [← Option.ne_none_iff_exists', ne_eq, Request.cost?_eq_none, Nat.not_lt]
  simp only [Request.accept_eq_ok, exists_and_left, suits, priced, and_assoc]

theorem refused_of_arguments :
    (∃ error after, (∀ reason, error ≠ .allocationFailed reason) ∧
        apply (.allocate request) before = .ok (.error error) after) ↔
      ¬ ∃ cost, request.accept before.heap.types before.queues.size = .ok cost := by
  constructor
  · rintro ⟨error, after, reason, run⟩ ⟨cost, accepted⟩
    rw [(refused_iff reason).mp ⟨after, run⟩] at accepted
    cases accepted
  · intro refused
    cases accepted : request.accept before.heap.types before.queues.size with
    | ok cost => exact absurd ⟨cost, accepted⟩ refused
    | error error =>
      exact ⟨error, before, Request.accept_ne_allocationFailed accepted,
        allocate_of_refuse accepted⟩

/-- What an allocation that succeeds answers with, for each kind of object, on idle heaps and in
    callbacks: an object that is not live yet, of the type that was asked for and with no flags but
    that of external objects, as long as the request says and zero but for its length word. But for
    the collection that the growth policy asked for before, nothing else has changed than that the
    object is the last of its registry or of the external objects, that the finalizer that was asked
    for is registered last, and that the object is registered as having a weak slot if its type has
    one. A request for a registered type is refused for its arguments, and without an effect, if and
    only if they are not those of the type, and as a mismatch if it is the layout that is not. -/
theorem new_object (known : before.heap.types.get? request.typeId = some descriptor) :
    (before.WellFormed → (∀ cost, request.cost? = some cost → before.Supports request cost) →
      ∀ o after, apply (.allocate request) before = .ok (.ok o) after →
        ∃ cost middle, before.Served request cost middle (.ok o) after ∧
          middle.heap.Makes after.heap request descriptor o) ∧
    ((∃ error after, (∀ reason, error ≠ .allocationFailed reason) ∧
        apply (.allocate request) before = .ok (.error error) after) ↔
      ¬ (request.Agrees descriptor ∧ request.Queued before.queues.size ∧
        request.totalBytes ≤ 2 ^ 64 - 8)) ∧
    ((∃ after, apply (.allocate request) before =
        .ok (.error (.layoutMismatch request.typeId)) after) ↔ ¬ request.Agrees descriptor) ∧
    ∀ error after, (∀ reason, error ≠ .allocationFailed reason) →
      apply (.allocate request) before = .ok (.error error) after → after = before := by
  refine ⟨?_, ?_, ?_, ?_⟩
  · intro formed supports o after run
    rcases allocate_eq_ok run with ⟨_, _, refused, _⟩ | ⟨cost, middle, accepted, prepared, run⟩
    · cases refused
    · have supports := supports cost (Request.accept_eq_ok.mp accepted).2
      have served := prepared.served run
      have granted := served.granted o rfl
      obtain ⟨descriptor', admitted⟩ := prepared.admitted accepted
      have fresh := prepared.fresh formed supports granted admitted
      have fits := supports.fits middle prepared o _ granted.answer
      obtain ⟨consistent, accounted, _⟩ := prepared.wellFormed formed supports
      have same : descriptor' = descriptor := by
        have found := admitted.known
        rw [prepared.counts.2.2, known] at found
        exact (Option.some.inj found).symm
      subst same
      exact ⟨cost, middle, served, granted.makes consistent accounted fits fresh admitted⟩
  · rw [refused_of_arguments, accept_iff known]
  · have refused := @refused_iff σ _ before request (.layoutMismatch request.typeId) nofun
    simpa [Request.accept_eq_layoutMismatch, known] using refused
  · intro error after reason run
    rcases refused_of_accept run with ⟨failed, same, _⟩ | ⟨_, same⟩
    · exact absurd same (reason failed)
    · exact same

end Collector

def Request.long : Request :=
  .varsize ⟨0⟩ 1024 8 8 0

namespace Collector

theorem WellFormed.quiet {collector : Collector σ} (formed : collector.WellFormed)
    (idle : collector.heap.collecting = false) (truthful : collector.heap.Truthful)
    (none_pending : collector.heap.finalizers.toList = []) :
    collector.Upheld ∧ collector.Willing := by
  have stages : ∀ later, Relation.ReflTransGen Step (.opening collector) later →
      later = .opening collector ∨ (∃ cycle, later.stage = .between ⟨cycle, [], .run .done⟩) ∨
        later.stage = .code .outside (.run .done) := by
    intro later reached
    induction reached with
    | refl => exact .inl rfl
    | @tail point next _ step ih =>
      obtain ⟨collector, stage, history⟩ := point
      rcases ih with same | ⟨cycle, rfl⟩ | rfl
      · cases same
        obtain ⟨cycle, swept, reclaimed, rfl⟩ := step.of_opening idle
        have spec := Heap.reclaimed_of_ok formed.consistent (truthful.traceable formed.consistent)
          reclaimed
        have scheduled : cycle.scheduled = [] := by
          have sub := spec.divides.scheduled_sublist
          rw [none_pending] at sub
          exact List.sublist_nil.mp sub
        refine .inr (.inl ⟨cycle, ?_⟩)
        rw [Point.opened, scheduled]
      · cases step with
        | finish finished => exact .inr (.inr rfl)
      · cases step with
        | code step => cases step
  constructor <;> intro later reached
  · rcases stages later reached with rfl | ⟨cycle, stage⟩ | stage
    · exact fun _ => truthful
    · rw [Point.Honest, stage]
      trivial
    · rw [Point.Honest, stage]
      trivial
  · rcases stages later reached with rfl | ⟨cycle, stage⟩ | stage
    · exact id
    · rw [Point.Balks, stage]
      exact id
    · rw [Point.Balks, stage]
      exact id

theorem wellFormed_noRow : WellFormed { heap := Heap.noRow } :=
  (Sound.start TypeTable.valid_rows {} ({} : SystemMemory) .done).wellFormed

theorem quiet_noRow (cost : Word) : Upheld { heap := Heap.noRow.announced cost } ∧
    Willing { heap := Heap.noRow.announced cost } :=
  (wellFormed_noRow.record _).quiet rfl ⟨nofun, nofun⟩ rfl

theorem supports_long : Supports { heap := Heap.noRow } .long 8208 where
  upheld := fun _ => (quiet_noRow 8208).1
  fits := by
    intro middle prepared object host answer
    have due : isDue { heap := Heap.noRow } .long 8208 = true := rfl
    obtain ⟨after, collected, memory, held⟩ :
        ∃ after, collect { heap := Heap.noRow.announced 8208 } = .ok () after ∧
          after.heap.host = {} ∧ after.heap.ledger.held = [] := ⟨_, rfl, rfl, rfl⟩
    cases collected.symm.trans (prepared.collected_of_isDue due).collect_eq_ok
    have granted : RawMemory.request 8208 ({} : SystemMemory) = (.ok .lowest, ⟨513⟩) := rfl
    rw [memory, granted] at answer
    cases answer
    refine ⟨by decide, ?_⟩
    rw [held]
    exact nofun

def unused : Collector SystemMemory :=
  ⟨.noNode, #[Program.farewell]⟩

theorem wellFormed_unused : unused.WellFormed where
  consistent := Heap.consistent_create TypeTable.valid_nodes {} ({} : SystemMemory)
  accounted := Heap.accounted_create .nodes {} ({} : SystemMemory)
  registered := nofun

theorem supports_parting : unused.Supports .parting 16 := by
  have small : ¬ (¬ Request.parting.isExternal ∧ unused.heap.exceedsThreshold 16) := by
    decide +kernel
  constructor
  · intro due
    exact absurd (isDue_iff.mp due).2 small
  · intro middle prepared object host answer
    cases prepared with
    | directly =>
      have granted : RawMemory.request 16 unused.heap.host = (.ok .lowest, ⟨1⟩) := rfl
      rw [granted] at answer
      cases answer
      exact ⟨by decide, nofun⟩
    | guarded large | collected large => exact absurd large small

theorem new_object_parting :
    (∃ cost middle after, Served unused .parting cost middle (.ok .lowest) after ∧
      ∃ descriptor, middle.heap.Makes after.heap .parting descriptor .lowest) ∧
    ∃ cost middle after, Served { heap := Heap.noRow } .long cost middle (.ok .lowest) after ∧
      ∃ descriptor, middle.heap.Makes after.heap .long descriptor .lowest := by
  constructor
  · have known : unused.heap.types.get? Request.parting.typeId = some _ := rfl
    have supports (cost : Word) (price : Request.parting.cost? = some cost) :
        unused.Supports .parting cost := by
      have same : Request.parting.cost? = some 16 := rfl
      cases same.symm.trans price
      exact supports_parting
    obtain ⟨after, run⟩ : ∃ after, apply (.allocate .parting) unused = .ok (.ok .lowest) after :=
      ⟨_, rfl⟩
    obtain ⟨cost, middle, served, makes⟩ :=
      (new_object known).1 wellFormed_unused supports .lowest after run
    exact ⟨cost, middle, after, served, _, makes⟩
  · have known : Heap.noRow.types.get? Request.long.typeId = some _ := rfl
    have supports (cost : Word) (price : Request.long.cost? = some cost) :
        Supports { heap := Heap.noRow } .long cost := by
      have same : Request.long.cost? = some 8208 := rfl
      cases same.symm.trans price
      exact supports_long
    obtain ⟨after, run⟩ : ∃ after,
        apply (.allocate .long) { heap := Heap.noRow } = .ok (.ok .lowest) after := ⟨_, rfl⟩
    obtain ⟨cost, middle, served, makes⟩ :=
      (new_object known).1 wellFormed_noRow supports .lowest after run
    exact ⟨cost, middle, after, served, _, makes⟩

end Collector

end Reclaim
