import Reclaim.Proofs.Heap.Setup
import Reclaim.Proofs.Run.Finalization
import Reclaim.Proofs.Run.Objects
import Reclaim.Proofs.Run.Outcomes

namespace Reclaim

theorem Request.Admitted.cost?_eq {request : Request} {types : TypeTable} {queues : Nat}
    {cost : Word} {descriptor : Descriptor}
    (admitted : request.Admitted types queues cost descriptor) : request.cost? = some cost := by
  rw [cost?, Option.bind_eq_bind, Option.bind_eq_some_iff]
  exact admitted.size

variable {σ : Type}

def Ref.request? (o : Ref) (history : List (Happening σ)) : Option Request :=
  (history.filterMap (Happening.granted? o)).getLast?

def Ref.price? (o : Ref) (history : List (Happening σ)) : Option Word :=
  (history.filterMap (Happening.granted? o)).getLast? >>= Request.cost?

theorem Ref.price?_eq (o : Ref) (history : List (Happening σ)) :
    o.price? history = o.request? history >>= Request.cost? := rfl

section Prices

variable {o object : Ref} {history new : List (Happening σ)} {request : Request}

theorem Ref.request?_append_of_none (others : ∀ happening ∈ new, happening.granted? o = none) :
    o.request? (history ++ new) = o.request? history := by
  rw [request?, List.filterMap_append, List.filterMap_eq_nil_iff.mpr others, List.append_nil,
    request?]

theorem Ref.request?_append_allocated (given : Option (Ref → Program σ)) :
    o.request? (history ++ [.allocated o request given]) = some request := by
  rw [request?, List.filterMap_append]
  simp [Happening.granted?]

theorem Ref.price?_append_of_none (others : ∀ happening ∈ new, happening.granted? o = none) :
    o.price? (history ++ new) = o.price? history := by
  rw [price?_eq, request?_append_of_none others, price?_eq]

theorem Ref.price?_append_allocated (given : Option (Ref → Program σ)) :
    o.price? (history ++ [.allocated o request given]) = request.cost? := by
  rw [price?_eq, request?_append_allocated]
  rfl

def Heap.Priced (heap : Heap σ) (history : List (Happening σ)) : Prop :=
  ∀ o ∈ heap.live, o.price? history = some (heap.cost o)

theorem Heap.Priced.mono {before after : Heap σ} (priced : before.Priced history)
    (live : ∀ o ∈ after.live, o ∈ before.live) (cost : ∀ o ∈ after.live, after.cost o = before.cost o)
    (others : ∀ o, ∀ happening ∈ new, happening.granted? o = none) :
    after.Priced (history ++ new) := by
  intro o member
  rw [Ref.price?_append_of_none (others o), cost o member]
  exact priced o (live o member)

variable [RawMemory σ]

theorem Heap.Priced.granted {before after : Heap σ} {queues : Nat} {cost : Word}
    {descriptor : Descriptor} {given : Option (Ref → Program σ)} (priced : before.Priced history)
    (h : before.Granted after request cost object) (fresh : object ∉ before.live)
    (admitted : request.Admitted before.types queues cost descriptor) :
    after.Priced (history ++ [.allocated object request given]) := by
  intro o member
  -- the address may have had another price before; the last request at it is the one that counts
  by_cases same : object = o
  · subst same
    rw [Ref.price?_append_allocated, admitted.cost?_eq,
      Heap.cost_eq_of_ok (h.allocationCost admitted)]
  · have old := ((h.mem_live o).mp member).resolve_right (Ne.symm same)
    rw [(h.unaltered fresh old).cost, Ref.price?_append_of_none]
    · exact priced o old
    · intro happening new
      rw [List.mem_singleton.mp new, Happening.granted?, if_neg same]

theorem Heap.Change.priced {before after : Heap σ} (change : before.Change new after)
    (priced : before.Priced history) : after.Priced (history ++ new) := by
  cases change with
  | spared none_granted left =>
    exact priced.mono (fun o member => (left o member).1) (fun o member => (left o member).2.cost)
      none_granted
  | granted fresh admitted granted only =>
    subst only
    exact priced.granted granted fresh admitted

end Prices

section Growth

variable [RawMemory σ]

theorem Collector.growth_of_apply {operation : Operation} {answer : operation.Answer}
    {before after : Collector σ} (plain : operation.isPlain = true)
    (performed : apply operation before = .ok answer after) :
    after.heap.growth = before.heap.growth := by
  rcases apply_eq_ok plain performed with ⟨rfl, reset⟩ | ⟨_, roots, memory, rfl⟩
  · exact (Heap.keepsSetup_reset (onHeap_eq_ok reset).1).growth
  · rfl

theorem CodeStep.growth {before after : Collector σ} {code rest : Code σ}
    {new : List (Happening σ)} (step : CodeStep before code new after rest) :
    after.heap.growth = before.heap.growth := by
  cases step with
  | operate plain performed next => exact Collector.growth_of_apply plain performed
  | allocate answered next => exact (Heap.keepsSetup_allocateNow _ _ answered).growth
  | inspect | collect | refuse | accept | exceed | addQueue | addScanner | host | poke => rfl

end Growth

structure Sized (growth : Growth) (point : Point σ) : Prop where
  sound : Sound point
  growth : point.collector.heap.growth = growth
  priced : point.collector.heap.Priced point.history

theorem Sized.start {types : TypeTable} (valid : types.Valid) (growth : Growth) (host : σ)
    (program : Program σ) : Sized growth (.start { heap := { growth, types, host } } program) :=
  ⟨.start valid growth host program, rfl, fun _ member => nomatch member⟩

variable [RawMemory σ] {growth : Growth} {point next : Point σ}

theorem Step.growth_eq (step : Step point next) (sound : Sound point) (lawful : point.Lawful) :
    next.collector.heap.growth = point.collector.heap.growth := by
  cases step with
  | code step place history => exact step.growth
  | nested busy next history => rfl
  | reclaim idle reclaimed next history =>
    exact (Heap.reclaimed_of_ok sound.consistent (lawful idle) reclaimed).growth
  | call found cycle waiting caller history => rfl
  | «return» collector entry collection history => rfl
  | finish finished caller history => exact (Heap.keepsSetup_finish _ finished).growth

theorem Sized.step (sized : Sized growth point) (lawful : point.Lawful) (step : Step point next) :
    Sized growth next := by
  obtain ⟨sound, kept, priced⟩ := sized
  obtain ⟨new, history, change⟩ := step.change sound lawful
  refine ⟨sound.step lawful step, (step.growth_eq sound lawful).trans kept, ?_⟩
  rw [history]
  exact change.priced priced

theorem Sized.of_runs {last : Point σ} (sized : Sized growth point)
    (run : Runs Point.Lawful point last) : Sized growth last := by
  induction run with
  | refl => exact sized
  | tail _ step ih => exact ih.step step.1 step.2

/-- A collection that is over has committed the baseline, whatever its finalizers have allocated. -/
theorem Step.baseline (step : Step point next) (collecting : point.stage.isCollecting = true)
    (ended : next.stage.isCollecting = false) :
    next.collector.heap.previousHeapSize =
      max next.collector.heap.heapSize point.collector.heap.growth.minHeapSize := by
  cases step with
  | code step place history =>
    cases place with
    | outside => cases collecting
    | callback entry collection => cases ended
  | @nested collector place busy next history =>
    cases place with
    | outside => cases collecting
    | callback entry collection => cases ended
  | reclaim idle reclaimed next history => cases ended
  | call found cycle waiting caller history => cases ended
  | «return» collector entry collection history => cases ended
  | finish finished caller history =>
    cases finished
    rfl

/-- At every point of a run that keeps the contract the heap size is the sum, over the registry, of
    what the objects cost when they were allocated, which is also what they are worked out to cost
    now. External objects are not in the registry. A collection that returns has set the baseline to
    the heap size at that time, but at least to the minimum. -/
theorem Runs.heap_size_exact {types : TypeTable} (valid : types.Valid) (growth : Growth) (host : σ)
    (program : Program σ)
    (run : Runs Point.Lawful (.start { heap := { growth, types, host } } program) point) :
    let heap := point.collector.heap
    (∃ price : Ref → Word,
      heap.heapSize.toNat = (heap.objects.toList.map fun o => (price o).toNat).sum ∧
      ∀ o ∈ heap.objects.toList, o.price? point.history = some (price o) ∧
        heap.types.allocationCost heap.memory o = .ok (price o)) ∧
    heap.objects.toList.Nodup ∧ (∀ o ∈ heap.external.toList, o ∉ heap.objects.toList) ∧
    ∀ next, Step point next → point.stage.isCollecting = true → next.stage.isCollecting = false →
      next.collector.heap.previousHeapSize =
        max next.collector.heap.heapSize growth.minHeapSize := by
  obtain ⟨sound, kept, priced⟩ := (Sized.start valid growth host program).of_runs run
  obtain ⟨once, _, apart⟩ := List.nodup_append.mp sound.consistent.live_nodup
  refine ⟨⟨point.collector.heap.cost, sound.consistent.heapSize, ?_⟩, once, ?_, ?_⟩
  · intro o member
    have live := Heap.mem_live_of_objects member
    obtain ⟨cost, known⟩ := sound.consistent.sized o live
    refine ⟨priced o live, ?_⟩
    rw [Heap.cost_eq_of_ok known]
    exact known
  · intro o external registered
    exact apart o registered o external rfl
  · intro next step collecting ended
    rw [step.baseline collecting ended, kept]

theorem Runs.heap_size_exact_farewell : ∃ point next : Point SystemMemory,
    .lowest ∈ point.collector.heap.objects.toList ∧ Step point next ∧
    point.stage.isCollecting = true ∧ next.stage.isCollecting = false ∧
    (let heap := point.collector.heap
    (∃ price : Ref → Word,
      heap.heapSize.toNat = (heap.objects.toList.map fun o => (price o).toNat).sum ∧
      ∀ o ∈ heap.objects.toList, o.price? point.history = some (price o) ∧
        heap.types.allocationCost heap.memory o = .ok (price o)) ∧
    heap.objects.toList.Nodup ∧ (∀ o ∈ heap.external.toList, o ∉ heap.objects.toList) ∧
    ∀ next, Step point next → point.stage.isCollecting = true → next.stage.isCollecting = false →
      next.collector.heap.previousHeapSize =
        max next.collector.heap.heapSize ({} : Growth).minHeapSize) := by
  obtain ⟨collector, cycle, entry, run, registered⟩ := Program.returns_parting
  have exact_size := Runs.heap_size_exact TypeTable.valid_nodes {} ({} : SystemMemory) .parting run
  exact ⟨_, _, registered, .finish rfl _ _, rfl, rfl, exact_size⟩

end Reclaim
