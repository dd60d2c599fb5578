import Reclaim.Heap.Release

namespace Reclaim

inductive AllocError where
  | outOfMemory
  | allocationFailed (error : ChunkError)
  | unknownType (typeId : TypeId)
  | layoutMismatch (typeId : TypeId)
  | unknownQueue (queue : QueueIndex)
  deriving DecidableEq

def AllocError.message : AllocError → String
  | outOfMemory => "out of memory: requested object size overflows the address space"
  | allocationFailed error => "raw allocation failed: " ++ error.message
  | unknownType typeId => "unknown type " ++ typeId.text
  | layoutMismatch typeId =>
    "allocation request does not match the layout of " ++ typeId.text
  | unknownQueue queue => "unknown finalizer queue " ++ queue.text

structure Finalizer where
  queue : QueueIndex
  light : Bool := false
  deriving DecidableEq

inductive Request where
  | fixed (typeId : TypeId) (size : Word) (finalizer : Option Finalizer) (weakSlot : Bool)
  | varsize (typeId : TypeId) (length base item lengthOffset : Word)
  /-- An immortal object: never freed, not counted in the heap size, a root of every collection. -/
  | external (typeId : TypeId) (size : Word)
  deriving DecidableEq

namespace Request

def typeId : Request → TypeId
  | fixed typeId _ _ _ | varsize typeId _ _ _ _ | external typeId _ => typeId

def layout : Request → Layout
  | fixed _ size _ _ | external _ size => .fixed size
  | varsize _ _ base item lengthOffset => .varsize base item lengthOffset

def length : Request → Word
  | varsize _ length _ _ _ => length
  | _ => 0

def finalizer : Request → Option Finalizer
  | fixed _ _ finalizer _ => finalizer
  | _ => none

def weakSlot : Request → Bool
  | fixed _ _ _ weakSlot => weakSlot
  | _ => false

def isExternal : Request → Bool
  | external _ _ => true
  | _ => false

/-- The cost of the object, if the request agrees with its type and the size can be represented.
    `queues` is the number of finalizer queues that there are. -/
def accept (request : Request) (types : TypeTable) (queues : Nat) : Except AllocError Word := do
  let some descriptor := types.get? request.typeId
    | throw (.unknownType request.typeId)
  if descriptor.layout ≠ request.layout ∨ (request.weakSlot ∧ descriptor.weakOffset.isNone) then
    throw (.layoutMismatch request.typeId)
  if let some finalizer := request.finalizer then
    if queues ≤ finalizer.queue.index then
      throw (.unknownQueue finalizer.queue)
  match request.layout.payloadSize? request.length >>= allocationCost? with
  | some cost => return cost
  | none => throw .outOfMemory

end Request

namespace Heap

variable {σ : Type} [RawMemory σ]

def addWeakHolder (object : Ref) (heap : Heap σ) : Heap σ :=
  if heap.weakHolders.contains object then heap
  else { heap with weakHolders := heap.weakHolders.push object }

def enter (request : Request) (cost : Word) (object : Ref) : HeapM σ Unit := do
  if request.isExternal then
    modify fun heap =>
      { heap with
        memory := heap.memory.setHeader object ⟨request.typeId, .external⟩
        external := heap.external.push object }
  else
    modify fun heap =>
      { heap with
        memory := heap.memory.setHeader object ⟨request.typeId, .empty⟩
        objects := heap.objects.push object }
    let heapSize ← check fun heap => Word.add heap.heapSize cost
    modify fun heap => { heap with heapSize }

/-- Writes down what a new object's type and request say about it: its length, its finalizer, and
    its weak slot, which counts whatever the request says. -/
def furnish (request : Request) (object : Ref) (heap : Heap σ) : Heap σ :=
  let heap := match request with
    | .varsize _ length _ _ lengthOffset =>
      { heap with memory := heap.memory.writeWord object lengthOffset length }
    | _ => heap
  let heap := match request.finalizer with
    | some ⟨queue, light⟩ =>
      { heap with finalizers := heap.finalizers.push { object, queue, light } }
    | none => heap
  match heap.types.get? request.typeId with
  | some { weakOffset := some _, .. } => heap.addWeakHolder object
  | _ => heap

def allocateNow (request : Request) (cost : Word) : HeapM σ (Except AllocError Ref) := do
  match ← Heap.request cost with
  | .error error => return .error (.allocationFailed error)
  | .ok object =>
    enter request cost object
    modify (furnish request object)
    return .ok object

end Heap

end Reclaim
