import Reclaim.Heap.Access
import Reclaim.Heap.Allocation

namespace Reclaim

inductive Operation where
  | allocate (request : Request)
  | addRoot (object : Ref)
  | setRoot (id : RootId) (object : Option Ref)
  | removeRoot (id : RootId)
  | collect
  | reset
  | writeWord (object : Ref) (offset word : Word)
  | writeRef (object : Ref) (offset : Word) (target : Option Ref)
  | writePayload (object : Ref) (offset : Word) (bytes : List UInt8)

@[reducible] def Operation.Answer : Operation → Type
  | allocate _ => Except AllocError Ref
  | addRoot _ => RootId
  | writePayload _ _ _ => Word
  | _ => Unit

/-- What an embedder with a state of type `σ` does with a heap is a tree: each node is one
    operation, and what comes next depends on the answer. Finalizer callbacks are programs too.
    Every path of a program is finite, so a callback always comes to an end. -/
inductive Program (σ : Type) where
  | done
  | fail (fault : Fault)
  /-- Goes on according to what it sees of the heap. -/
  | inspect (next : Heap σ → Program σ)
  | call (operation : Operation) (next : operation.Answer → Program σ)
  | addQueue (callback : Ref → Program σ) (next : QueueIndex → Program σ)
  /-- Adds a scanner: a list of further roots that depends on the embedder's state. -/
  | addScanner (scan : σ → List Ref) (next : Program σ)
  | host (update : σ → σ) (next : Program σ)
  /-- Changes the bytes of objects behind the collector's back. -/
  | poke (update : Memory → Memory) (next : Program σ)

structure Collector (σ : Type) where
  heap : Heap σ
  queues : Array (Ref → Program σ) := #[]

abbrev CollectorM (σ : Type) := EStateM Fault (Collector σ)

namespace Collector

variable {σ : Type} {α : Type}

def create (types : TypeTable) (growth : Growth) (host : σ) : Except Fault (Collector σ) := do
  return { heap := ← Heap.create types growth host }

def onHeap (action : HeapM σ α) : CollectorM σ α := fun ⟨heap, queues⟩ =>
  match action heap with
  | .ok value heap => .ok value ⟨heap, queues⟩
  | .error fault heap => .error fault ⟨heap, queues⟩

variable [RawMemory σ]

/-- Carries out a request: nothing happens unless it is admitted; then `collect` runs first if the
    growth policy asks for it, and the raw memory is asked once, whatever that freed. -/
def allocate (collect : CollectorM σ Unit) (request : Request) :
    CollectorM σ (Except AllocError Ref) := do
  let collector ← get
  match request.accept collector.heap.types collector.queues.size with
  | .error error => return .error error
  | .ok cost =>
    if ¬ request.isExternal ∧ collector.heap.exceedsThreshold cost then
      onHeap (Heap.log
        (.thresholdExceeded cost collector.heap.heapSize collector.heap.threshold))
      collect
    onHeap (Heap.allocateNow request cost)

def perform (collect : CollectorM σ Unit) :
    (operation : Operation) → CollectorM σ operation.Answer
  | .allocate request => allocate collect request
  | .addRoot object => onHeap (Heap.addRoot object)
  | .setRoot id object => onHeap (Heap.setRoot id object)
  | .removeRoot id => onHeap (Heap.removeRoot id)
  | .collect => collect
  | .reset => onHeap Heap.reset
  | .writeWord object offset word => onHeap (Heap.writeWord object offset word)
  | .writeRef object offset target => onHeap (Heap.writeRef object offset target)
  | .writePayload object offset bytes => onHeap (Heap.writePayload object offset bytes)

end Collector

def Program.runWith {σ : Type} [RawMemory σ] (collect : CollectorM σ Unit) :
    Program σ → CollectorM σ Unit
  | .done => return ()
  | .fail fault => throw fault
  | .inspect next => do (next (← get).heap).runWith collect
  | .call operation next => do (next (← Collector.perform collect operation)).runWith collect
  | .addQueue callback next => do
    let queue : QueueIndex := ⟨(← get).queues.size⟩
    modify fun collector => { collector with queues := collector.queues.push callback }
    (next queue).runWith collect
  | .addScanner scan next => do
    Collector.onHeap (modify fun heap => { heap with scanners := heap.scanners.push scan })
    next.runWith collect
  | .host update next => do
    Collector.onHeap (modify fun heap => { heap with host := update heap.host })
    next.runWith collect
  | .poke update next => do
    Collector.onHeap (modify fun heap => { heap with memory := update heap.memory })
    next.runWith collect

end Reclaim
