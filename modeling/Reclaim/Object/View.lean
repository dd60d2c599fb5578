import Reclaim.Fault
import Reclaim.Object.Memory

namespace Reclaim

def checkBounds (offset width length : Word) : Except Fault Unit :=
  match Word.add? offset width with
  | some last => if last ≤ length then .ok () else .error (.outOfBounds width offset length)
  | none => .error (.outOfBounds width offset length)

/-- A live object as a trace callback sees it: what it is, and its payload, read only. -/
structure View where
  object : Ref
  typeId : TypeId
  payloadLength : Word
  payload : Payload

namespace View

def readWord (view : View) (offset : Word) : Except Fault Word := do
  checkBounds offset Word.size view.payloadLength
  return view.payload.readWord offset.toNat

def readRef (view : View) (offset : Word) : Except Fault (Option Ref) := do
  return Ref.ofWord? (← view.readWord offset)

def bytes (view : View) : List UInt8 :=
  view.payload.read 0 view.payloadLength.toNat

def text (label : Ref → String) (view : View) : String :=
  "ObjectView \x7b object: " ++ view.object.text label ++ ", type_id: " ++ view.typeId.text ++
    ", payload_len: " ++ toString view.payloadLength ++ " \x7d"

end View

/-- Reports the managed references held in an object, in order. A weak slot must not be reported. -/
abbrev Trace := View → Except Fault (List Ref)

namespace Trace

def none : Trace := fun _ => .ok []

def slots (offsets : List Word) : Trace := fun view => do
  let targets ← offsets.mapM view.readRef
  return targets.filterMap id

/-- The references in `count` more slots, the first of them with the given index; `found` holds
    those seen so far, the last one first. -/
def scan (view : View) (first stride : Word) : Nat → Word → List Ref → Except Fault (List Ref)
  | 0, _, found => .ok found.reverse
  | count + 1, index, found => do
    let offset ← Word.add first (← Word.mul index stride)
    let target ← view.readRef offset
    scan view first stride count (index + 1) (target.toList ++ found)

def items (first stride lengthOffset : Word) : Trace := fun view => do
  let length ← view.readWord lengthOffset
  scan view first stride length.toNat 0 []

def append (left right : Trace) : Trace := fun view => do
  return (← left view) ++ (← right view)

end Trace

end Reclaim
