import Reclaim.Client.Program
import Reclaim.Cycle.Phases

namespace Reclaim

namespace Collector

variable {σ : Type} [RawMemory σ]

def collectWithin : CollectorM σ Unit :=
  onHeap (Heap.log .alreadyCollecting)

def runFinalizer (entry : FinalizerEntry) : CollectorM σ Unit := do
  let collector ← get
  match collector.queues[entry.queue.index]? with
  | none => throw (.missingQueue entry.queue collector.queues.size)
  | some callback =>
    onHeap (Heap.log (.runningFinalizer entry))
    (callback entry.object).runWith collectWithin
    onHeap (modify fun heap => { heap with stats := heap.stats.countFinalizer entry })

/-- A collection that is asked for while one is running does nothing. Callbacks run inside a
    collection, so a collection never contains another one. -/
def collect : CollectorM σ Unit := do
  if (← get).heap.collecting then collectWithin
  else
    let cycle ← onHeap Heap.reclaim
    cycle.scheduled.forM runFinalizer
    onHeap (Heap.finish cycle)

def apply (operation : Operation) : CollectorM σ operation.Answer :=
  perform collect operation

def dispose : CollectorM σ Unit :=
  onHeap Heap.releaseAll

end Collector

def Program.run {σ : Type} [RawMemory σ] (program : Program σ) : CollectorM σ Unit :=
  program.runWith Collector.collect

end Reclaim
