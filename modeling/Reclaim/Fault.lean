import Reclaim.Decimal.Shortest
import Reclaim.Handle

namespace Reclaim

inductive Arithmetic where
  | add
  | multiply
  | subtract
  deriving DecidableEq

/-- What stops an operation on the heap for good: a broken promise of the embedder, such as an
    access outside a payload, or a broken invariant of the collector. It is not a result: the
    operation that meets one ends there, and leaves the heap as it is at that point. -/
inductive Fault where
  | overflow (operation : Arithmetic)
  | typeIdTooWide (index : Word)
  | lengthWordOutside (name : String) (offset fixedPart : Word)
  | weakSlotOutside (name : String) (offset fixedPart : Word)
  | weakSlotOverlaps (name : String) (offset : Word)
  | typeTableFull (name : String)
  | unregisteredType (typeId : TypeId)
  | unrepresentableSize (object : Ref)
  | outOfBounds (width offset length : Word)
  | readOnlyLength (object : Ref)
  | vacantRoot (id : RootId)
  | badGrowthFactor (factor : Float)
  | survivingOutsideCollection (object : Ref)
  | scheduledTwice (object : Ref)
  | noWeakSlot (object : Ref) (typeId : TypeId)
  | heapSizeUnderflow (cost heapSize : Word)
  | resetDuringCollection
  | missingQueue (queue : QueueIndex) (count : Nat)
  | raised (reason : String)

namespace Fault

def message (label : Ref → String) : Fault → String
  | overflow .add => "attempt to add with overflow"
  | overflow .multiply => "attempt to multiply with overflow"
  | overflow .subtract => "attempt to subtract with overflow"
  | typeIdTooWide index => s!"type id {index} does not fit in 16 bits"
  | lengthWordOutside name offset fixedPart =>
    s!"type {name}: length word at {offset} lies outside its base of {fixedPart} bytes"
  | weakSlotOutside name offset fixedPart =>
    s!"type {name}: weak slot at {offset} lies outside its fixed part of {fixedPart} bytes"
  | weakSlotOverlaps name offset =>
    s!"type {name}: weak slot at {offset} overlaps the length word"
  | typeTableFull name => s!"type table is full, cannot register {name}"
  | unregisteredType typeId => s!"object header carries unregistered {typeId.text}"
  | unrepresentableSize object => s!"live {object.text label} has an unrepresentable size"
  | outOfBounds width offset length =>
    s!"access of {width} bytes at offset {offset} is outside a payload of {length} bytes"
  | readOnlyLength object => s!"the length word of {object.text label} is read-only"
  | vacantRoot id => s!"{id.text} is not an allocated root slot"
  | badGrowthFactor factor =>
    s!"growth factor must be positive and finite, got {Decimal.text factor}"
  | survivingOutsideCollection object =>
    s!"{object.text label} is SURVIVING outside of a collection"
  | scheduledTwice object => s!"finalizer for {object.text label} scheduled twice"
  | noWeakSlot object typeId =>
    s!"{object.text label} registered as weak but {typeId.text} has no weak slot"
  | heapSizeUnderflow cost heapSize =>
    s!"heap size underflow: freeing {cost} bytes from a heap of {heapSize} bytes"
  | resetDuringCollection => "reset called during a collection"
  | missingQueue queue count =>
    s!"index out of bounds: the len is {count} but the index is {queue.index}"
  | raised reason => reason

end Fault

namespace Word

def add (a b : Word) : Except Fault Word :=
  match add? a b with
  | some sum => .ok sum
  | none => .error (.overflow .add)

def mul (a b : Word) : Except Fault Word :=
  match mul? a b with
  | some product => .ok product
  | none => .error (.overflow .multiply)

def sub (a b : Word) : Except Fault Word :=
  match sub? a b with
  | some difference => .ok difference
  | none => .error (.overflow .subtract)

end Word

def TypeId.ofIndex (index : Word) : Except Fault TypeId :=
  match TypeId.ofIndex? index with
  | some typeId => .ok typeId
  | none => .error (.typeIdTooWide index)

end Reclaim
