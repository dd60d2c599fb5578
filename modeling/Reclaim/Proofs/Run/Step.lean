import Mathlib.Logic.Relation
import Reclaim.Client.Collect
import Reclaim.Proofs.Heap.Consistency

namespace Reclaim

inductive Happening (σ : Type) where
  | allocated (object : Ref) (request : Request) (callback : Option (Ref → Program σ))
  | scheduled (entry : FinalizerEntry)
  | called (entry : FinalizerEntry) (callback : Ref → Program σ)
  | returned (entry : FinalizerEntry)
  | freed (object : Ref)
  | discarded (object : Ref)

inductive Code (σ : Type) where
  | run (program : Program σ)
  | allocate (request : Request) (cost : Word) (next : Except AllocError Ref → Program σ)
  | collect (next : Code σ)

/-- A collection whose sweep is over: the finalizers that it has not called yet, and what goes on
    after it. -/
structure Collection (σ : Type) where
  cycle : Cycle
  waiting : List FinalizerEntry
  caller : Code σ

inductive Place (σ : Type) where
  | outside
  | callback (entry : FinalizerEntry) (collection : Collection σ)

inductive Stage (σ : Type) where
  | code (place : Place σ) (code : Code σ)
  | between (collection : Collection σ)

/-- A collector together with what is left to do and with what has happened to its objects so far.
    Between any two operations, also inside callbacks, there is one. -/
structure Point (σ : Type) where
  collector : Collector σ
  stage : Stage σ
  history : List (Happening σ) := []

def Operation.isPlain : Operation → Bool
  | allocate _ | collect => false
  | _ => true

def Place.isCallback {σ : Type} : Place σ → Bool
  | outside => false
  | callback _ _ => true

namespace Happening

variable {σ : Type}

def ofOperation (heap : Heap σ) : Operation → List (Happening σ)
  | .reset => heap.live.map .discarded
  | _ => []

def ofAnswer (collector : Collector σ) (request : Request) :
    Except AllocError Ref → List (Happening σ)
  | .ok object => [.allocated object request
      (request.finalizer.bind fun finalizer => collector.queues[finalizer.queue.index]?)]
  | .error _ => []

def ofCycle (before : Heap σ) (cycle : Cycle) (after : Heap σ) : List (Happening σ) :=
  cycle.scheduled.map .scheduled ++
    (before.objects.toList.filter (· ∉ after.objects.toList)).map .freed

end Happening

variable {σ : Type} [RawMemory σ]

inductive CodeStep : Collector σ → Code σ → List (Happening σ) → Collector σ → Code σ → Prop
  | inspect (collector : Collector σ) (next : Heap σ → Program σ) :
      CodeStep collector (.run (.inspect next)) [] collector (.run (next collector.heap))
  | operate {before after : Collector σ} {operation : Operation} {answer : operation.Answer}
      (plain : operation.isPlain = true)
      (performed : Collector.apply operation before = .ok answer after)
      (next : operation.Answer → Program σ) :
      CodeStep before (.run (.call operation next)) (Happening.ofOperation before.heap operation)
        after (.run (next answer))
  | collect (collector : Collector σ) (next : Unit → Program σ) :
      CodeStep collector (.run (.call .collect next)) [] collector (.collect (.run (next ())))
  | refuse {collector : Collector σ} {request : Request} {error : AllocError}
      (refused : request.accept collector.heap.types collector.queues.size = .error error)
      (next : Except AllocError Ref → Program σ) :
      CodeStep collector (.run (.call (.allocate request) next)) [] collector
        (.run (next (.error error)))
  | accept {collector : Collector σ} {request : Request} {cost : Word}
      (accepted : request.accept collector.heap.types collector.queues.size = .ok cost)
      (small : ¬ (¬ request.isExternal ∧ collector.heap.exceedsThreshold cost))
      (next : Except AllocError Ref → Program σ) :
      CodeStep collector (.run (.call (.allocate request) next)) [] collector
        (.allocate request cost next)
  | exceed {collector : Collector σ} {request : Request} {cost : Word}
      (accepted : request.accept collector.heap.types collector.queues.size = .ok cost)
      (large : ¬ request.isExternal ∧ collector.heap.exceedsThreshold cost)
      (next : Except AllocError Ref → Program σ) :
      CodeStep collector (.run (.call (.allocate request) next)) []
        { collector with
          heap := collector.heap.record (.logged
            (.thresholdExceeded cost collector.heap.heapSize collector.heap.threshold)) }
        (.collect (.allocate request cost next))
  | allocate {collector : Collector σ} {request : Request} {cost : Word}
      {answer : Except AllocError Ref} {heap : Heap σ}
      (answered : Heap.allocateNow request cost collector.heap = .ok answer heap)
      (next : Except AllocError Ref → Program σ) :
      CodeStep collector (.allocate request cost next)
        (Happening.ofAnswer collector request answer) { collector with heap } (.run (next answer))
  | addQueue (collector : Collector σ) (callback : Ref → Program σ)
      (next : QueueIndex → Program σ) :
      CodeStep collector (.run (.addQueue callback next)) []
        { collector with queues := collector.queues.push callback }
        (.run (next ⟨collector.queues.size⟩))
  | addScanner (collector : Collector σ) (scan : σ → List Ref) (next : Program σ) :
      CodeStep collector (.run (.addScanner scan next)) []
        { collector with
          heap := { collector.heap with scanners := collector.heap.scanners.push scan } }
        (.run next)
  | host (collector : Collector σ) (update : σ → σ) (next : Program σ) :
      CodeStep collector (.run (.host update next)) []
        { collector with heap := { collector.heap with host := update collector.heap.host } }
        (.run next)
  | poke (collector : Collector σ) (update : Memory → Memory) (next : Program σ) :
      CodeStep collector (.run (.poke update next)) []
        { collector with heap := { collector.heap with memory := update collector.heap.memory } }
        (.run next)

inductive Step : Point σ → Point σ → Prop
  | code {before after : Collector σ} {code rest : Code σ} {new : List (Happening σ)}
      (step : CodeStep before code new after rest) (place : Place σ)
      (history : List (Happening σ)) :
      Step ⟨before, .code place code, history⟩ ⟨after, .code place rest, history ++ new⟩
  | nested {collector : Collector σ} {place : Place σ}
      (busy : place.isCallback = true ∨ collector.heap.collecting = true) (next : Code σ)
      (history : List (Happening σ)) :
      Step ⟨collector, .code place (.collect next), history⟩
        ⟨{ collector with heap := collector.heap.record (.logged .alreadyCollecting) },
          .code place next, history⟩
  | reclaim {collector : Collector σ} {cycle : Cycle} {heap : Heap σ}
      (idle : collector.heap.collecting = false)
      (reclaimed : Heap.reclaim collector.heap = .ok cycle heap) (next : Code σ)
      (history : List (Happening σ)) :
      Step ⟨collector, .code .outside (.collect next), history⟩
        ⟨{ collector with heap }, .between ⟨cycle, cycle.scheduled, next⟩,
          history ++ Happening.ofCycle collector.heap cycle heap⟩
  | call {collector : Collector σ} {entry : FinalizerEntry} {callback : Ref → Program σ}
      (found : collector.queues[entry.queue.index]? = some callback) (cycle : Cycle)
      (waiting : List FinalizerEntry) (caller : Code σ) (history : List (Happening σ)) :
      Step ⟨collector, .between ⟨cycle, entry :: waiting, caller⟩, history⟩
        ⟨{ collector with heap := collector.heap.record (.logged (.runningFinalizer entry)) },
          .code (.callback entry ⟨cycle, waiting, caller⟩) (.run (callback entry.object)),
          history ++ [.called entry callback]⟩
  | return (collector : Collector σ) (entry : FinalizerEntry) (collection : Collection σ)
      (history : List (Happening σ)) :
      Step ⟨collector, .code (.callback entry collection) (.run .done), history⟩
        ⟨{ collector with
            heap := { collector.heap with stats := collector.heap.stats.countFinalizer entry } },
          .between collection, history ++ [.returned entry]⟩
  | finish {collector : Collector σ} {cycle : Cycle} {heap : Heap σ}
      (finished : Heap.finish cycle collector.heap = .ok () heap) (caller : Code σ)
      (history : List (Happening σ)) :
      Step ⟨collector, .between ⟨cycle, [], caller⟩, history⟩
        ⟨{ collector with heap }, .code .outside caller, history⟩

def Point.start (collector : Collector σ) (program : Program σ) : Point σ :=
  ⟨collector, .code .outside (.run program), []⟩

/-- Runs in which every step keeps a contract. -/
def Runs (contract : Point σ → Prop) : Point σ → Point σ → Prop :=
  Relation.ReflTransGen fun point next => contract point ∧ Step point next

end Reclaim
