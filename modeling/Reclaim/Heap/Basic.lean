import Reclaim.Heap.Growth
import Reclaim.Heap.Journal
import Reclaim.Object.TypeTable
import Reclaim.RootTable

namespace Reclaim

structure Stats where
  collections : Nat := 0
  objectsFreed : Nat := 0
  bytesFreed : Nat := 0
  finalizersRun : Nat := 0
  lightFinalizersRun : Nat := 0
  weakrefsCleared : Nat := 0
  lastMarked : Nat := 0
  lastFreed : Nat := 0
  lastFreedBytes : Nat := 0
  deriving DecidableEq

structure Heap (σ : Type) where
  growth : Growth
  types : TypeTable
  host : σ
  memory : Memory := {}
  /-- Every allocated and not yet freed object, in allocation order; external ones are apart. -/
  objects : Array Ref := #[]
  external : Array Ref := #[]
  finalizers : Array FinalizerEntry := #[]
  weakHolders : Array Ref := #[]
  roots : RootTable := {}
  scanners : Array (σ → List Ref) := #[]
  heapSize : Word := 0
  previousHeapSize : Word := growth.initialHeapSize
  collecting : Bool := false
  stats : Stats := {}
  journal : Array Event := #[]

abbrev HeapM (σ : Type) := EStateM Fault (Heap σ)

namespace Heap

variable {σ : Type}

def create (types : TypeTable) (growth : Growth) (host : σ) : Except Fault (Heap σ) := do
  growth.validate
  return { growth, types, host }

def threshold (heap : Heap σ) : Word :=
  heap.growth.threshold heap.previousHeapSize

def exceedsThreshold (heap : Heap σ) (requested : Word) : Bool :=
  heap.growth.exceeds heap.previousHeapSize heap.heapSize requested

def contains (heap : Heap σ) (object : Ref) : Bool :=
  heap.objects.contains object

def hasPendingFinalizer (heap : Heap σ) (object : Ref) : Bool :=
  heap.finalizers.any fun entry => entry.object = object

/-- The objects that every collection starts from: those in the root table, those that the scanners
    list, and the external ones. -/
def rootObjects (heap : Heap σ) : List Ref :=
  heap.roots.objects ++ heap.scanners.toList.flatMap (fun scan => scan heap.host) ++
    heap.external.toList

def record (event : Event) (heap : Heap σ) : Heap σ :=
  { heap with journal := heap.journal.push event }

def check {α : Type} (read : Heap σ → Except Fault α) : HeapM σ α := fun heap =>
  match read heap with
  | .ok value => .ok value heap
  | .error fault => .error fault heap

def log (entry : LogRecord) : HeapM σ Unit :=
  modify (record (.logged entry))

def onFault {α : Type} (leave : Heap σ → Heap σ) (action : HeapM σ α) : HeapM σ α := fun heap =>
  match action heap with
  | .ok value heap => .ok value heap
  | .error fault heap => .error fault (leave heap)

end Heap

end Reclaim
