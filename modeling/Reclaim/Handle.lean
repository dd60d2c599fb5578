import Reclaim.Word.Basic

namespace Reclaim

/-- A handle to a managed object: the address of its header, which is never zero. Objects do not
    move, so a handle stays valid for as long as the object is live. -/
structure Ref where
  word : Word
  word_ne_zero : word ≠ 0
  deriving DecidableEq

namespace Ref

instance : Ord Ref := ⟨fun a b => compare a.word b.word⟩

theorem compare_eq (a b : Ref) : compare a b = compare a.word b.word := rfl

instance : Std.TransOrd Ref where
  eq_swap {a b} := @Std.OrientedCmp.eq_swap Word compare _ a.word b.word
  isLE_trans {a b c} := @Std.TransCmp.isLE_trans Word compare _ a.word b.word c.word

instance : Std.LawfulEqOrd Ref where
  eq_of_compare {a b} h := by
    cases a
    cases b
    simp_all [compare_eq]

/-- Reads a reference slot. Zero is the empty reference. -/
def ofWord? (word : Word) : Option Ref :=
  if h : word = 0 then none else some ⟨word, h⟩

def slotWord : Option Ref → Word
  | none => 0
  | some object => object.word

@[simp] theorem ofWord?_slotWord (target : Option Ref) : ofWord? (slotWord target) = target := by
  cases target with
  | none => rfl
  | some object => simp [ofWord?, slotWord, object.word_ne_zero]

theorem slotWord_ofWord? (word : Word) : slotWord (ofWord? word) = word := by
  unfold ofWord?
  split
  · simp_all [slotWord]
  · rfl

def address (object : Ref) : String :=
  "0x" ++ String.ofList (Nat.toDigits 16 object.word.toNat)

def text (label : Ref → String) (object : Ref) : String :=
  "ObjectRef(" ++ label object ++ ")"

end Ref

/-- Names an entry of the type table. A type id is stored in the low 16 bits of a header. -/
structure TypeId where
  index : UInt16
  deriving DecidableEq

namespace TypeId

def ofIndex? (index : Word) : Option TypeId :=
  if index ≤ 0xffff then some ⟨index.toUInt16⟩ else none

def text (typeId : TypeId) : String :=
  "TypeId(" ++ toString typeId.index.toNat ++ ")"

end TypeId

/-- Names a slot of the root table. Slots are used again after removal. -/
structure RootId where
  index : Nat
  deriving DecidableEq

def RootId.text (id : RootId) : String :=
  "RootId(" ++ toString id.index ++ ")"

structure QueueIndex where
  index : Nat
  deriving DecidableEq

def QueueIndex.text (queue : QueueIndex) : String :=
  "QueueIndex(" ++ toString queue.index ++ ")"

end Reclaim
