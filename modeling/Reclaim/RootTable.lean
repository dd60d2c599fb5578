import Reclaim.Fault

namespace Reclaim

inductive RootSlot where
  | occupied (object : Option Ref)
  | vacant
  deriving DecidableEq

structure RootTable where
  slots : Array RootSlot := #[]
  /-- The vacant slots, the one removed last in front. -/
  free : List Nat := []

namespace RootTable

def add (table : RootTable) (object : Option Ref) : RootId × RootTable :=
  match table.free with
  | index :: free =>
    (⟨index⟩, { slots := table.slots.setIfInBounds index (.occupied object), free })
  | [] => (⟨table.slots.size⟩, { table with slots := table.slots.push (.occupied object) })

def isAllocated (table : RootTable) (id : RootId) : Bool :=
  match table.slots[id.index]? with
  | some (.occupied _) => true
  | _ => false

def set (table : RootTable) (id : RootId) (object : Option Ref) : Except Fault RootTable :=
  if table.isAllocated id then
    .ok { table with slots := table.slots.setIfInBounds id.index (.occupied object) }
  else .error (.vacantRoot id)

def remove (table : RootTable) (id : RootId) : Except Fault RootTable :=
  if table.isAllocated id then
    .ok { slots := table.slots.setIfInBounds id.index .vacant, free := id.index :: table.free }
  else .error (.vacantRoot id)

/-- Forgets every slot, so that ids are handed out from the first one again. -/
def clear (_ : RootTable) : RootTable :=
  {}

def get (table : RootTable) (id : RootId) : Option Ref :=
  match table.slots[id.index]? with
  | some (.occupied object) => object
  | _ => none

def object? : RootSlot → Option Ref
  | .occupied object => object
  | .vacant => none

def objects (table : RootTable) : List Ref :=
  table.slots.toList.filterMap object?

def size (table : RootTable) : Nat :=
  table.objects.length

end RootTable

end Reclaim
