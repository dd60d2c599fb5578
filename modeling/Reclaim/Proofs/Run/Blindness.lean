import Reclaim.Proofs.Cycle.SideBySide
import Reclaim.Proofs.Heap.Renewal
import Reclaim.Proofs.Run.Faults

namespace Reclaim

variable {σ : Type}

inductive GrantsAlike (pairing : Pairing) : Except AllocError Ref → Except AllocError Ref → Prop
  | ok {a b : Ref} (pair : pairing.Pairs a b) : GrantsAlike pairing (.ok a) (.ok b)
  | error (error : AllocError) : GrantsAlike pairing (.error error) (.error error)

namespace Operation

inductive Alike (pairing : Pairing) : Operation → Operation → Prop
  | allocate (request : Request) : Alike pairing (.allocate request) (.allocate request)
  | addRoot {a b : Ref} (pair : pairing.Pairs a b) : Alike pairing (.addRoot a) (.addRoot b)
  | setRoot (id : RootId) {target target' : Option Ref} (links : pairing.Links target target') :
      Alike pairing (.setRoot id target) (.setRoot id target')
  | removeRoot (id : RootId) : Alike pairing (.removeRoot id) (.removeRoot id)
  | collect : Alike pairing .collect .collect
  | reset : Alike pairing .reset .reset
  | writeWord {a b : Ref} (pair : pairing.Pairs a b) (offset word : Word) :
      Alike pairing (.writeWord a offset word) (.writeWord b offset word)
  | writeRef {a b : Ref} (pair : pairing.Pairs a b) (offset : Word) {target target' : Option Ref}
      (links : pairing.Links target target') :
      Alike pairing (.writeRef a offset target) (.writeRef b offset target')
  | writePayload {a b : Ref} (pair : pairing.Pairs a b) (offset : Word) (bytes : List UInt8) :
      Alike pairing (.writePayload a offset bytes) (.writePayload b offset bytes)

def AnswersAlike (pairing : Pairing) :
    (operation other : Operation) → operation.Answer → other.Answer → Prop
  | .allocate _, .allocate _, answer, answer' => GrantsAlike pairing answer answer'
  | .addRoot _, .addRoot _, id, id' => id = id'
  | .writePayload _ _ _, .writePayload _ _ _, room, room' => room = room'
  | _, _, _, _ => True

end Operation

/-- Two programs that do the same on heaps that are alike, whatever the addresses are. What they do
    may depend on what they see of the heap, as long as that is the same in both heaps. -/
inductive Program.Alike (slots : SlotMap) : Pairing → Program σ → Program σ → Prop
  | done {pairing : Pairing} : Alike slots pairing .done .done
  | fail {pairing : Pairing} {fault fault' : Fault} (h : fault.Alike pairing fault') :
      Alike slots pairing (.fail fault) (.fail fault')
  | inspect {pairing : Pairing} {next next' : Heap σ → Program σ}
      (more : ∀ heap other : Heap σ, heap.Alike slots other → pairing ⊆ heap.pairing other →
        Alike slots (heap.pairing other) (next heap) (next' other)) :
      Alike slots pairing (.inspect next) (.inspect next')
  | call {pairing : Pairing} {operation operation' : Operation}
      {next : operation.Answer → Program σ} {next' : operation'.Answer → Program σ}
      (h : operation.Alike pairing operation')
      (more : ∀ (wider : Pairing) answer answer', pairing ⊆ wider →
        operation.AnswersAlike wider operation' answer answer' →
          Alike slots wider (next answer) (next' answer')) :
      Alike slots pairing (.call operation next) (.call operation' next')
  | addQueue {pairing : Pairing} {callback callback' : Ref → Program σ}
      {next next' : QueueIndex → Program σ}
      (callbacks : ∀ (any : Pairing) a b, any.Pairs a b → Alike slots any (callback a) (callback' b))
      (more : ∀ queue, Alike slots pairing (next queue) (next' queue)) :
      Alike slots pairing (.addQueue callback next) (.addQueue callback' next')
  | addScanner {pairing : Pairing} (scan scan' : σ → List Ref) {next next' : Program σ}
      (more : Alike slots pairing next next') :
      Alike slots pairing (.addScanner scan next) (.addScanner scan' next')
  | host {pairing : Pairing} (update update' : σ → σ) {next next' : Program σ}
      (more : Alike slots pairing next next') :
      Alike slots pairing (.host update next) (.host update' next')

def CallbacksAlike (slots : SlotMap) (callback callback' : Ref → Program σ) : Prop :=
  ∀ (pairing : Pairing) a b, pairing.Pairs a b →
    Program.Alike slots pairing (callback a) (callback' b)

/-- A callback that depends on nothing but the heap and the object that it is given. -/
def Blind (slots : SlotMap) (callback : Ref → Program σ) : Prop :=
  CallbacksAlike slots callback callback

namespace Collector

structure Alike (slots : SlotMap) (collector other : Collector σ) : Prop where
  heap : collector.heap.Alike slots other.heap
  size : other.queues.size = collector.queues.size
  queue : ∀ i : Nat, Option.Rel (CallbacksAlike slots) collector.queues[i]? other.queues[i]?

abbrev pairing (collector other : Collector σ) : Pairing :=
  collector.heap.pairing other.heap

inductive Outcome (slots : SlotMap) {α α' : Type} (answers : Pairing → α → α' → Prop) :
    EStateM.Result Fault (Collector σ) α → EStateM.Result Fault (Collector σ) α' → Prop
  | ok {answer : α} {answer' : α'} {after after' : Collector σ}
      (h : answers (after.pairing after') answer answer') (alike : after.Alike slots after') :
      Outcome slots answers (.ok answer after) (.ok answer' after')
  | error {fault fault' : Fault} {after after' : Collector σ}
      (h : fault.Alike (after.pairing after') fault') (alike : after.Alike slots after') :
      Outcome slots answers (.error fault after) (.error fault' after')

variable {slots : SlotMap} {collector other : Collector σ}

theorem Alike.with_heap (h : collector.Alike slots other) {heap heap' : Heap σ}
    (alike : heap.Alike slots heap') :
    Alike slots { collector with heap } { other with heap := heap' } :=
  { h with heap := alike }

theorem Alike.onHeap {α α' : Type} {answers wanted : Pairing → α → α' → Prop} {action : HeapM σ α}
    {action' : HeapM σ α'} (h : collector.Alike slots other)
    (outcome : Heap.Outcome slots answers (action collector.heap) (action' other.heap))
    (enough : ∀ pairing answer answer', answers pairing answer answer' →
      wanted pairing answer answer') :
    Outcome slots wanted (Collector.onHeap action collector)
      (Collector.onHeap action' other) := by
  rw [Collector.onHeap, Collector.onHeap]
  generalize action collector.heap = result at outcome
  generalize action' other.heap = result' at outcome
  cases outcome with
  | ok answers alike => exact .ok (enough _ _ _ answers) (h.with_heap alike)
  | error fault alike => exact .error fault (h.with_heap alike)

variable [RawMemory σ]

theorem Alike.apply (h : collector.Alike slots other) (slotted : collector.heap.types.Slotted slots)
    (consistent : collector.heap.Consistent) (consistent' : other.heap.Consistent)
    {operation operation' : Operation} (alike : operation.Alike (collector.pairing other) operation')
    (plain : operation.isPlain = true) (careful : operation.Careful slots collector.heap) :
    Outcome slots (fun pairing => operation.AnswersAlike pairing operation')
      (Collector.apply operation collector) (Collector.apply operation' other) := by
  cases alike with
  | allocate request => cases plain
  | collect => cases plain
  | addRoot pair => exact h.onHeap (h.heap.addRoot pair) fun _ _ _ same => same
  | setRoot id links => exact h.onHeap (h.heap.setRoot id links) fun _ _ _ _ => trivial
  | removeRoot id => exact h.onHeap (h.heap.removeRoot id) fun _ _ _ _ => trivial
  | reset =>
    cases busy : collector.heap.collecting with
    | false =>
      have idle := h.heap.collecting.trans busy
      have done : Collector.apply .reset collector = .ok () _ :=
        onHeap_of_ok (Heap.reset_eq_ok busy consistent.sized)
      have done' : Collector.apply .reset other = .ok () _ :=
        onHeap_of_ok (Heap.reset_eq_ok idle consistent'.sized)
      rw [done, done']
      exact .ok trivial (h.with_heap h.heap.renewed)
    | true =>
      have busy' := h.heap.collecting.trans busy
      have refused : Collector.apply .reset collector = .error .resetDuringCollection _ :=
        onHeap_of_error (Heap.reset_of_busy busy)
      have refused' : Collector.apply .reset other = .error .resetDuringCollection _ :=
        onHeap_of_error (Heap.reset_of_busy busy')
      rw [refused, refused']
      exact .error (fun _ _ _ => rfl) h
  | @writeWord a b pair offset word =>
    refine h.onHeap (h.heap.writeWord consistent pair fun _ _ wrote wrote' => ?_)
      fun _ _ _ _ => trivial
    exact h.heap.untouched pair wrote wrote' (careful.untouched (by simp) a _ _ ⟨rfl, rfl, rfl⟩)
  | writeRef pair offset links =>
    refine h.onHeap (h.heap.writeWord consistent pair fun _ _ wrote wrote' => ?_)
      fun _ _ _ _ => trivial
    exact h.heap.stored slotted pair links (careful.stores _ _ _ rfl) wrote wrote'
  | @writePayload a b pair offset bytes =>
    refine h.onHeap (h.heap.writePayload consistent pair fun start room part => ?_)
      fun _ _ _ same => same
    exact careful.untouched (by simp) a _ _ ⟨start, room, part, rfl, rfl, rfl⟩

end Collector

end Reclaim
