import Reclaim.Object.Size
import Reclaim.Object.View
import Reclaim.Text.Quoted

namespace Reclaim

inductive Layout where
  | fixed (size : Word)
  | varsize (base item lengthOffset : Word)
  deriving DecidableEq

namespace Layout

def fixedPart : Layout → Word
  | fixed size => size
  | varsize base _ _ => base

def payloadSize? (layout : Layout) (length : Word) : Option Word :=
  match layout with
  | fixed size => some size
  | varsize base item _ => do Word.add? (← Word.mul? item length) base

/-- The payload size of a live object. An object does not record its size, so the length word of a
    variable-size one is read back. -/
def payloadSize (layout : Layout) (payload : Payload) : Except Fault Word :=
  match layout with
  | fixed size => .ok size
  | varsize base item lengthOffset => do
    Word.add base (← Word.mul (payload.readWord lengthOffset.toNat) item)

def length? (layout : Layout) (payload : Payload) : Option Word :=
  match layout with
  | fixed _ => none
  | varsize _ _ lengthOffset => some (payload.readWord lengthOffset.toNat)

def text : Layout → String
  | fixed size => s!"Fixed \x7b size: {size} \x7d"
  | varsize base item lengthOffset =>
    s!"VarSize \x7b base_size: {base}, item_size: {item}, length_offset: {lengthOffset} \x7d"

end Layout

structure Descriptor where
  name : String
  layout : Layout
  weakOffset : Option Word := none
  trace : Trace := .none

namespace Descriptor

def checkWord (offset room : Word) (fault : Fault) : Except Fault Unit := do
  let last ← Word.add offset Word.size
  if last ≤ room then .ok () else .error fault

def checkDisjoint (offset other : Word) (fault : Fault) : Except Fault Unit := do
  if (← Word.add offset Word.size) ≤ other then .ok ()
  else if (← Word.add other Word.size) ≤ offset then .ok ()
  else .error fault

/-- A layout is consistent if its length word and its weak slot lie in the part of the payload that
    every object has, and do not overlap. -/
def validate (descriptor : Descriptor) : Except Fault Unit := do
  let name := descriptor.name
  let room := descriptor.layout.fixedPart
  match descriptor.layout with
  | .fixed _ => pure ()
  | .varsize _ _ lengthOffset =>
    checkWord lengthOffset room (.lengthWordOutside name lengthOffset room)
  match descriptor.weakOffset with
  | none => pure ()
  | some weak =>
    checkWord weak room (.weakSlotOutside name weak room)
    match descriptor.layout with
    | .fixed _ => pure ()
    | .varsize _ _ lengthOffset => checkDisjoint weak lengthOffset (.weakSlotOverlaps name weak)

def text (descriptor : Descriptor) : String :=
  let weak := match descriptor.weakOffset with
    | none => "None"
    | some offset => s!"Some({offset})"
  "TypeDescriptor \x7b name: " ++ Text.quoted descriptor.name ++ ", layout: " ++
    descriptor.layout.text ++ ", weak_offset: " ++ weak ++ " \x7d"

end Descriptor

structure TypeTable where
  types : Array Descriptor := #[]

namespace TypeTable

def size (table : TypeTable) : Nat :=
  table.types.size

def get? (table : TypeTable) (typeId : TypeId) : Option Descriptor :=
  table.types[typeId.index.toNat]?

def check (table : TypeTable) (descriptor : Descriptor) : Except Fault Unit := do
  descriptor.validate
  if table.size ≤ 0xffff then .ok () else .error (.typeTableFull descriptor.name)

def push (table : TypeTable) (descriptor : Descriptor) : TypeTable :=
  ⟨table.types.push descriptor⟩

def register (table : TypeTable) (descriptor : Descriptor) : Except Fault (TypeId × TypeTable) := do
  table.check descriptor
  return (⟨UInt16.ofNat table.size⟩, table.push descriptor)

/-- The type of a live object. An id that is not in the table means that a header is corrupt. -/
def expect (table : TypeTable) (typeId : TypeId) : Except Fault Descriptor :=
  match table.get? typeId with
  | some descriptor => .ok descriptor
  | none => .error (.unregisteredType typeId)

def descriptorOf (table : TypeTable) (memory : Memory) (object : Ref) : Except Fault Descriptor :=
  table.expect (memory.header object).typeId

def view (table : TypeTable) (memory : Memory) (object : Ref) : Except Fault View := do
  let typeId := (memory.header object).typeId
  let descriptor ← table.expect typeId
  let payload := memory.payload object
  return { object, typeId, payloadLength := ← descriptor.layout.payloadSize payload, payload }

def children (table : TypeTable) (memory : Memory) (object : Ref) : Except Fault (List Ref) := do
  let view ← table.view memory object
  (← table.expect view.typeId).trace view

def allocationCost (table : TypeTable) (memory : Memory) (object : Ref) : Except Fault Word := do
  let view ← table.view memory object
  match allocationCost? view.payloadLength with
  | some cost => .ok cost
  | none => .error (.unrepresentableSize object)

end TypeTable

end Reclaim
