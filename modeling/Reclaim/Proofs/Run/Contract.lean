import Reclaim.Proofs.Heap.Accounts
import Reclaim.Proofs.Run.Step

namespace Reclaim

variable {σ : Type}

namespace Operation

def operands : Operation → List Ref
  | addRoot object => [object]
  | setRoot _ object => object.toList
  | writeWord object _ _ => [object]
  | writeRef object _ target => object :: target.toList
  | writePayload object _ _ => [object]
  | _ => []

def Writes (heap : Heap σ) : Operation → Ref → Nat → List UInt8 → Prop
  | writeWord object offset word, o, start, bytes =>
    o = object ∧ start = offset.toNat ∧ bytes = word.toBytes
  | writeRef object offset target, o, start, bytes =>
    o = object ∧ start = offset.toNat ∧ bytes = (Ref.slotWord target).toBytes
  | writePayload object offset payload, o, start, bytes =>
    ∃ first length, heap.writablePart object = .ok (first, length) ∧ o = object ∧
      start = first.toNat + offset.toNat ∧ bytes = payload.take (length.toNat - offset.toNat)
  | _, _, _, _ => False

end Operation

variable [RawMemory σ]

/-- What the embedder promises when it asks for something, and its raw memory when it grants a
    block: operands are live, types and scanners report live objects when a collection begins, a
    block does not overlap one that is held, and nobody writes behind the collector's back. -/
def Code.Lawful (heap : Heap σ) : Code σ → Prop
  | .run (.call operation _) => ∀ o ∈ operation.operands, o ∈ heap.live
  | .run (.poke _ _) => False
  | .run _ => True
  | .allocate _ cost _ => ∀ object host, RawMemory.request cost heap.host = (.ok object, host) →
    heap.ledger.Fits (object, cost)
  | .collect _ => heap.collecting = false → heap.Traceable

def Point.Lawful (point : Point σ) : Prop :=
  match point.stage with
  | .code _ code => code.Lawful point.collector.heap
  | .between _ => True

omit [RawMemory σ] in
def Code.Pending (types : TypeTable) (queues : Nat) : Code σ → Prop
  | .run _ => True
  | .allocate request cost _ => ∃ descriptor, request.Admitted types queues cost descriptor
  | .collect next => next.Pending types queues

inductive Effect (before : Collector σ) (code : Code σ) : List (Happening σ) → Heap σ → Prop
  | aside {after : Heap σ} (h : before.heap.Aside after) : Effect before code [] after
  | wrote {after : Heap σ} {operation : Operation} {next : operation.Answer → Program σ}
      {object : Ref} {offset : Nat} {bytes : List UInt8}
      (called : code = .run (.call operation next))
      (writes : operation.Writes before.heap object offset bytes)
      (h : before.heap.Wrote after object offset bytes) : Effect before code [] after
  | granted {after : Heap σ} {request : Request} {cost : Word} {object : Ref}
      {descriptor : Descriptor}
      (admitted : request.Admitted before.heap.types before.queues.size cost descriptor)
      (fits : before.heap.ledger.Fits (object, cost))
      (h : before.heap.Granted after request cost object) :
      Effect before code (Happening.ofAnswer before request (.ok object)) after
  | cleared {after : Heap σ} (h : before.heap.Cleared after) :
      Effect before code (before.heap.live.map .discarded) after

omit [RawMemory σ] in
theorem Collector.onHeap_eq_ok {α : Type} {action : HeapM σ α} {before after : Collector σ}
    {value : α} (h : onHeap action before = .ok value after) :
    action before.heap = .ok value after.heap ∧ after.queues = before.queues := by
  rw [onHeap] at h
  split at h
  · rename_i run
    cases h
    exact ⟨run, rfl⟩
  · cases h

theorem Collector.apply_eq_onHeap {operation : Operation} (plain : operation.isPlain = true) :
    ∃ action : HeapM σ operation.Answer, apply operation = onHeap action := by
  cases operation with
  | allocate request => cases plain
  | collect => cases plain
  | addRoot object => exact ⟨Heap.addRoot object, rfl⟩
  | setRoot id object => exact ⟨Heap.setRoot id object, rfl⟩
  | removeRoot id => exact ⟨Heap.removeRoot id, rfl⟩
  | reset => exact ⟨Heap.reset, rfl⟩
  | writeWord object offset word => exact ⟨Heap.writeWord object offset word, rfl⟩
  | writeRef object offset target => exact ⟨Heap.writeRef object offset target, rfl⟩
  | writePayload object offset bytes => exact ⟨Heap.writePayload object offset bytes, rfl⟩

theorem Collector.apply_effect {before after : Collector σ} {operation : Operation}
    {answer : operation.Answer} (plain : operation.isPlain = true)
    (consistent : before.heap.Consistent)
    (lawful : ∀ o ∈ operation.operands, o ∈ before.heap.live)
    (performed : apply operation before = .ok answer after)
    (next : operation.Answer → Program σ) :
    Effect before (.run (.call operation next)) (Happening.ofOperation before.heap operation)
      after.heap ∧ after.heap.collecting = before.heap.collecting := by
  cases operation with
  | allocate request => cases plain
  | collect => cases plain
  | addRoot object =>
    have performed' : onHeap (Heap.addRoot object) before = .ok answer after := performed
    obtain ⟨run, _⟩ := onHeap_eq_ok performed'
    obtain ⟨aside, same⟩ := Heap.aside_of_addRoot (lawful object List.mem_cons_self) run
    exact ⟨.aside aside, same⟩
  | setRoot id target =>
    have performed' : onHeap (Heap.setRoot id target) before = .ok answer after := performed
    obtain ⟨run, _⟩ := onHeap_eq_ok performed'
    obtain ⟨aside, same⟩ := Heap.aside_of_setRoot lawful run
    exact ⟨.aside aside, same⟩
  | removeRoot id =>
    have performed' : onHeap (Heap.removeRoot id) before = .ok answer after := performed
    obtain ⟨run, _⟩ := onHeap_eq_ok performed'
    obtain ⟨aside, same⟩ := Heap.aside_of_removeRoot run
    exact ⟨.aside aside, same⟩
  | reset =>
    have performed' : onHeap Heap.reset before = .ok answer after := performed
    obtain ⟨run, _⟩ := onHeap_eq_ok performed'
    have cleared := Heap.cleared_of_reset consistent.sized run
    exact ⟨.cleared cleared, cleared.collecting.trans cleared.idle.symm⟩
  | writeWord object offset word =>
    have performed' : onHeap (Heap.writeWord object offset word) before = .ok answer after :=
      performed
    obtain ⟨run, _⟩ := onHeap_eq_ok performed'
    have wrote := Heap.wrote_of_writeWord (lawful object List.mem_cons_self) run
    exact ⟨.wrote rfl ⟨rfl, rfl, rfl⟩ wrote, by rw [wrote.after_eq]⟩
  | writeRef object offset target =>
    have performed' : onHeap (Heap.writeWord object offset (Ref.slotWord target)) before =
        .ok answer after := performed
    obtain ⟨run, _⟩ := onHeap_eq_ok performed'
    have wrote := Heap.wrote_of_writeWord (lawful object List.mem_cons_self) run
    exact ⟨.wrote rfl ⟨rfl, rfl, rfl⟩ wrote, by rw [wrote.after_eq]⟩
  | writePayload object offset bytes =>
    have performed' : onHeap (Heap.writePayload object offset bytes) before = .ok answer after :=
      performed
    obtain ⟨run, _⟩ := onHeap_eq_ok performed'
    obtain ⟨first, part, wrote⟩ :=
      Heap.wrote_of_writePayload (lawful object List.mem_cons_self) run
    exact ⟨.wrote rfl ⟨first, answer, part, rfl, rfl, rfl⟩ wrote, by rw [wrote.after_eq]⟩

omit [RawMemory σ] in
theorem Request.Admitted.mono {request : Request} {types : TypeTable} {queues more : Nat}
    {cost : Word} {descriptor : Descriptor}
    (admitted : request.Admitted types queues cost descriptor) (le : queues ≤ more) :
    request.Admitted types more cost descriptor :=
  { admitted with
    queue := fun finalizer wanted => Nat.lt_of_lt_of_le (admitted.queue finalizer wanted) le }

omit [RawMemory σ] in
theorem Code.Pending.mono {types : TypeTable} {queues more : Nat} {code : Code σ}
    (pending : code.Pending types queues) (le : queues ≤ more) : code.Pending types more := by
  induction code with
  | run program => trivial
  | allocate request cost next =>
    obtain ⟨descriptor, admitted⟩ := pending
    exact ⟨descriptor, admitted.mono le⟩
  | collect next ih => exact ih pending

theorem CodeStep.queues {before after : Collector σ} {code rest : Code σ}
    {new : List (Happening σ)} (step : CodeStep before code new after rest) :
    ∃ added, after.queues.toList = before.queues.toList ++ added := by
  cases step with
  | @operate _ operation answer plain performed next =>
    obtain ⟨action, same⟩ : ∃ action : HeapM σ operation.Answer,
        Collector.apply operation = Collector.onHeap action := Collector.apply_eq_onHeap plain
    rw [same] at performed
    rw [(Collector.onHeap_eq_ok performed).2]
    exact ⟨[], (List.append_nil _).symm⟩
  | addQueue callback next => exact ⟨[callback], Array.toList_push⟩
  | inspect | collect | refuse | accept | exceed | allocate | addScanner | host | poke =>
    exact ⟨[], (List.append_nil _).symm⟩

theorem CodeStep.effect {before after : Collector σ} {code rest : Code σ}
    {new : List (Happening σ)} (step : CodeStep before code new after rest)
    (consistent : before.heap.Consistent) (lawful : code.Lawful before.heap)
    (pending : code.Pending before.heap.types before.queues.size) :
    Effect before code new after.heap ∧ after.heap.collecting = before.heap.collecting ∧
      rest.Pending before.heap.types before.queues.size := by
  cases step with
  | inspect next => exact ⟨.aside (Heap.aside_refl _), rfl, trivial⟩
  | operate plain performed next =>
    obtain ⟨effect, same⟩ := Collector.apply_effect plain consistent lawful performed next
    exact ⟨effect, same, trivial⟩
  | collect next => exact ⟨.aside (Heap.aside_refl _), rfl, trivial⟩
  | refuse refused next => exact ⟨.aside (Heap.aside_refl _), rfl, trivial⟩
  | accept accepted small next =>
    exact ⟨.aside (Heap.aside_refl _), rfl, Request.exists_admitted accepted⟩
  | exceed accepted large next =>
    exact ⟨.aside (Heap.aside_record _ _), rfl, Request.exists_admitted accepted⟩
  | allocate answered next =>
    obtain ⟨descriptor, admitted⟩ := pending
    rcases Heap.allocateNow_eq_ok answered with
      ⟨error, rfl, aside, same⟩ | ⟨object, rfl, granted⟩
    · exact ⟨.aside aside, same, trivial⟩
    · have fits := lawful object _ granted.answer
      exact ⟨.granted admitted fits granted, granted.collecting, trivial⟩
  | addQueue callback next => exact ⟨.aside (Heap.aside_refl _), rfl, trivial⟩
  | addScanner scan next =>
    exact ⟨.aside ⟨rfl, rfl, rfl, rfl, rfl, rfl, rfl, fun _ => .inl, [], by simp, rfl, rfl⟩, rfl,
      trivial⟩
  | host update next =>
    exact ⟨.aside ⟨rfl, rfl, rfl, rfl, rfl, rfl, rfl, fun _ => .inl, [], by simp, rfl, rfl⟩, rfl,
      trivial⟩
  | poke update next => exact lawful.elim

end Reclaim
