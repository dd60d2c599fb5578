import Reclaim.Heap.Basic

namespace Reclaim.Heap

variable {σ : Type}

def descriptorOf (heap : Heap σ) (object : Ref) : Except Fault Descriptor :=
  heap.types.descriptorOf heap.memory object

def view (heap : Heap σ) (object : Ref) : Except Fault View :=
  heap.types.view heap.memory object

def lengthOf (heap : Heap σ) (object : Ref) : Except Fault (Option Word) := do
  return (← heap.descriptorOf object).layout.length? (heap.memory.payload object)

def readWord (heap : Heap σ) (object : Ref) (offset : Word) : Except Fault Word := do
  (← heap.view object).readWord offset

def readRef (heap : Heap σ) (object : Ref) (offset : Word) : Except Fault (Option Ref) := do
  (← heap.view object).readRef offset

def payload (heap : Heap σ) (object : Ref) : Except Fault (List UInt8) := do
  return (← heap.view object).bytes

def checkWritable (object : Ref) (offset : Word) (heap : Heap σ) : Except Fault Unit := do
  checkBounds offset Word.size (← heap.view object).payloadLength
  match (← heap.descriptorOf object).layout with
  | .fixed _ => .ok ()
  | .varsize _ _ lengthOffset =>
    Descriptor.checkDisjoint offset lengthOffset (.readOnlyLength object)

def writeWord (object : Ref) (offset word : Word) : HeapM σ Unit := do
  check (checkWritable object offset)
  modify fun heap => { heap with memory := heap.memory.writeWord object offset word }

def writeRef (object : Ref) (offset : Word) (target : Option Ref) : HeapM σ Unit :=
  writeWord object offset (Ref.slotWord target)

/-- Where the freely writable part of a payload starts and how long it is: all of it for a
    fixed-size object, everything after the length word for a variable-size one. -/
def writablePart (object : Ref) (heap : Heap σ) : Except Fault (Word × Word) := do
  let length := (← heap.view object).payloadLength
  match (← heap.descriptorOf object).layout with
  | .fixed _ => return (0, length)
  | .varsize _ _ lengthOffset =>
    let start ← Word.add lengthOffset Word.size
    return (start, ← Word.sub length start)

/-- Writes bytes at an offset into the freely writable part, as many as fit. Answers with the length
    of that part. -/
def writePayload (object : Ref) (offset : Word) (bytes : List UInt8) : HeapM σ Word := do
  let (start, length) ← check (writablePart object)
  modify fun heap =>
    { heap with
      memory := heap.memory.writeBytes object (start.toNat + offset.toNat)
        (bytes.take (length.toNat - offset.toNat)) }
  return length

def setRoot (id : RootId) (object : Option Ref) : HeapM σ Unit := do
  let roots ← check fun heap => heap.roots.set id object
  modify fun heap => { heap with roots }

def removeRoot (id : RootId) : HeapM σ Unit := do
  let roots ← check fun heap => heap.roots.remove id
  modify fun heap => { heap with roots }

def addRoot (object : Ref) : HeapM σ RootId :=
  modifyGet fun heap =>
    let (id, roots) := heap.roots.add (some object)
    (id, { heap with roots })

end Reclaim.Heap
