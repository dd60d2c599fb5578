import Reclaim.Proofs.Heap.Access
import Reclaim.Proofs.Heap.Accounts
import Reclaim.Proofs.Object.ByteOrder

namespace Reclaim.Heap

variable {σ : Type} {before after heap : Heap σ} {a b o : Ref} {space : Bytes}

/-- The address space shows a heap: at the address of each live object there is its header, and
    behind that its payload. -/
structure Shown (heap : Heap σ) (space : Bytes) : Prop where
  header : ∀ o ∈ heap.live, space.number o.word.toNat = (heap.memory.headerWord o).toNat
  payload : ∀ o ∈ heap.live, ∀ view, heap.view o = .ok view → ∀ k < view.payloadLength.toNat,
    space (o.word.toNat + 8 + k) = (heap.memory.payload o).byte k

namespace Accounted

variable (accounted : heap.Accounted)

include accounted

theorem blocks_apart (first : a ∈ heap.live) (second : b ∈ heap.live) (other : a ≠ b) :
    Ledger.Apart (a, heap.cost a) (b, heap.cost b) := by
  have symm : Std.Symm Ledger.Apart := ⟨fun _ _ => Or.symm⟩
  refine accounted.apart.forall (accounted.mem_held first) (accounted.mem_held second) ?_
  intro same
  exact other (congrArg Prod.fst same)

theorem eq_of_shared {address : Nat} (first : a ∈ heap.live) (second : b ∈ heap.live)
    (inside : a.word.toNat ≤ address ∧ address < a.word.toNat + (heap.cost a).toNat)
    (inside' : b.word.toNat ≤ address ∧ address < b.word.toNat + (heap.cost b).toNat) : a = b := by
  by_contra other
  have apart := accounted.blocks_apart first second other
  simp only [Ledger.Apart] at apart
  omega

theorem room_of_readable (live : o ∈ heap.live) {descriptor : Descriptor} {length : Word}
    (readable : heap.Readable o descriptor length) :
    8 + length.toNat ≤ (heap.cost o).toNat := by
  have known := accounted.sizes _ (accounted.mem_held live)
  simp only [TypeTable.allocationCost_eq, readable.known, readable.payloadSize] at known
  split at known
  · rename_i cost total
    cases known
    have room := le_of_allocationCost? total
    omega
  · cases known

end Accounted

theorem Readable.payloadLength_eq {descriptor : Descriptor} {length : Word} {view : View}
    (readable : heap.Readable o descriptor length) (seen : heap.view o = .ok view) :
    view.payloadLength = length := by
  rw [readable.view_eq_ok] at seen
  cases seen
  rfl

section Image

def blockByte (heap : Heap σ) (o : Ref) (k : Nat) : UInt8 :=
  if k < 8 then (heap.memory.headerWord o).toBytes[k]?.getD 0
  else (heap.memory.payload o).byte (k - 8)

def image (heap : Heap σ) : Bytes := fun address =>
  match heap.live.find? fun o => o.word.toNat ≤ address ∧
    address < o.word.toNat + (heap.cost o).toNat with
  | some o => heap.blockByte o (address - o.word.toNat)
  | none => 0

theorem image_eq_blockByte (accounted : heap.Accounted) (live : o ∈ heap.live) {k : Nat}
    (inside : k < (heap.cost o).toNat) : heap.image (o.word.toNat + k) = heap.blockByte o k := by
  rw [image]
  split
  · rename_i p found
    have range := List.find?_some found
    rw [decide_eq_true_eq] at range
    have same : p = o := accounted.eq_of_shared (List.mem_of_find?_eq_some found) live range
      ⟨Nat.le_add_right _ _, Nat.add_lt_add_left inside _⟩
    rw [same, Nat.add_sub_cancel_left]
  · rename_i none
    have outside := List.find?_eq_none.mp none o live
    rw [decide_eq_true_eq] at outside
    omega

/-- There is an address space that shows the heap, since no two objects need the same address. -/
theorem shown_image (consistent : heap.Consistent) (accounted : heap.Accounted) :
    heap.Shown heap.image where
  header := by
    intro o live
    have size := accounted.header_room live
    apply Bytes.number_of_toBytes
    intro k small
    have inside : k < 8 := by rwa [Word.length_toBytes] at small
    rw [image_eq_blockByte accounted live (by omega), blockByte, if_pos inside,
      List.getElem?_eq_getElem small, Option.getD_some]
  payload := by
    intro o live view seen k inside
    obtain ⟨descriptor, length, readable⟩ := consistent.readable live
    rw [readable.payloadLength_eq seen] at inside
    have room := accounted.room_of_readable live readable
    rw [Nat.add_assoc, image_eq_blockByte accounted live (by omega), blockByte,
      if_neg (Nat.not_lt.mpr (Nat.le_add_right _ _)), Nat.add_sub_cancel_left]

end Image

section Wrote

variable {start : Nat} {run : List UInt8} {descriptor : Descriptor} {length : Word}

theorem Wrote.payloadLength_eq (h : before.Wrote after a start run) (o : Ref) :
    (after.view o).map View.payloadLength = (before.view o).map View.payloadLength := by
  have shape := h.sameShape o
  simp only [view, TypeTable.view, TypeTable.expect, h.types_eq, shape.typeId]
  cases known : before.types.get? (before.memory.header o).typeId with
  | none => simp only [bind, Except.bind]
  | some descriptor =>
    simp only [bind, Except.bind, Layout.payloadSize_congr (shape.length descriptor known)]
    cases descriptor.layout.payloadSize (before.memory.payload o) with
    | error fault => rfl
    | ok length => rfl

theorem Wrote.lengthOf_eq (h : before.Wrote after a start run) (o : Ref) :
    after.lengthOf o = before.lengthOf o := by
  have shape := h.sameShape o
  simp only [lengthOf, descriptorOf, TypeTable.descriptorOf, TypeTable.expect, h.types_eq,
    shape.typeId]
  cases known : before.types.get? (before.memory.header o).typeId with
  | none => simp only [bind, Except.bind]
  | some descriptor => simp only [bind, Except.bind, shape.length descriptor known]

theorem Wrote.readable (h : before.Wrote after a start run)
    (readable : before.Readable o descriptor length) : after.Readable o descriptor length := by
  have shape := h.sameShape o
  constructor
  · rw [h.types_eq, shape.typeId]
    exact readable.known
  · rw [Layout.payloadSize_congr (shape.length descriptor readable.known)]
    exact readable.payloadSize

theorem Wrote.shown (consistent : before.Consistent) (accounted : before.Accounted)
    (h : before.Wrote after a start run) (readable : before.Readable a descriptor length)
    (inside : start + run.length ≤ length.toNat) (shown : before.Shown space) :
    after.Shown (space.overwrite (a.word.toNat + 8 + start) run) := by
  have room := accounted.room_of_readable h.live readable
  constructor
  · intro o live
    rw [h.live_eq] at live
    have size := accounted.header_room live
    rw [h.headerWord, ← shown.header o live]
    refine Bytes.number_congr fun k small => Bytes.overwrite_of_outside ?_
    by_cases same : a = o
    · subst same
      left
      omega
    · have apart := accounted.blocks_apart h.live live same
      simp only [Ledger.Apart] at apart
      omega
  · intro o live view seen k within
    rw [h.live_eq] at live
    obtain ⟨descriptor', length', readable'⟩ := consistent.readable live
    rw [(h.readable readable').payloadLength_eq seen] at within
    have own := shown.payload o live _ readable'.view_eq_ok k within
    rw [h.payload]
    by_cases same : a = o
    · subst same
      rw [if_pos rfl, Payload.byte_write_eq_overwrite]
      exact Bytes.overwrite_window own
    · have apart := accounted.blocks_apart h.live live same
      have room' := accounted.room_of_readable live readable'
      simp only [Ledger.Apart] at apart
      rw [if_neg same, ← own]
      refine Bytes.overwrite_of_outside ?_
      omega

end Wrote

end Reclaim.Heap
