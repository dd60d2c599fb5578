import Reclaim.Heap.Access

namespace Reclaim.Console

inductive Kind where
  | cell
  | vector
  | blob
  | weak
  deriving DecidableEq

namespace Kind

def name : Kind → String
  | cell => "cell"
  | vector => "vector"
  | blob => "blob"
  | weak => "weak"

def layout : Kind → Layout
  | cell => .fixed 16
  | vector => .varsize 8 8 0
  | blob => .varsize 8 1 0
  | weak => .fixed 8

def descriptor : Kind → Descriptor
  | cell => { name := cell.name, layout := cell.layout, trace := .slots [0, 8] }
  | vector => { name := vector.name, layout := vector.layout, trace := .items 8 8 0 }
  | blob => { name := blob.name, layout := blob.layout }
  | weak => { name := weak.name, layout := weak.layout, weakOffset := some 0 }

def typeId : Kind → TypeId
  | cell => ⟨0⟩
  | vector => ⟨1⟩
  | blob => ⟨2⟩
  | weak => ⟨3⟩

def ofTypeId (typeId : TypeId) : Kind :=
  if typeId = cell.typeId then cell
  else if typeId = vector.typeId then vector
  else if typeId = blob.typeId then blob
  else weak

def types : TypeTable :=
  ⟨#[cell.descriptor, vector.descriptor, blob.descriptor, weak.descriptor]⟩

theorem ofTypeId_typeId (kind : Kind) : ofTypeId kind.typeId = kind := by
  cases kind <;> rfl

theorem get?_types (kind : Kind) : types.get? kind.typeId = some kind.descriptor := by
  cases kind <;> rfl

variable {σ : Type}

def of (heap : Heap σ) (object : Ref) : Kind :=
  ofTypeId (heap.memory.header object).typeId

def slotOffset (heap : Heap σ) (object : Ref) (slot : Word) : Except Fault (Option Word) := do
  match of heap object with
  | .cell => return if slot < 2 then some (slot * Word.size) else none
  | .vector =>
    if slot < ((← heap.lengthOf object).getD 0) then
      return some (← Word.add 8 (← Word.mul slot Word.size))
    else return none
  | .blob => return none
  | .weak => return if slot = 0 then some 0 else none

end Kind

end Reclaim.Console
