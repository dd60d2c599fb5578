import Reclaim.Proofs.Heap.Effects
import Reclaim.Proofs.Heap.Slots
import Reclaim.Proofs.Object.Registration

namespace Reclaim

theorem Word.sub_eq_ok {a b : Word} (le : b.toNat ≤ a.toNat) : sub a b = .ok (a - b) := by
  rw [sub, sub?, if_pos le]

namespace Descriptor

theorem checkDisjoint_eq_error {a b : Word} {fault found : Fault}
    (first : a.toNat + 8 < UInt64.size) (second : b.toNat + 8 < UInt64.size)
    (failed : checkDisjoint a b fault = .error found) : found = fault := by
  simp only [checkDisjoint, bind, Except.bind, (Word.add_size_eq_ok first).1,
    (Word.add_size_eq_ok second).1] at failed
  split at failed
  · cases failed
  · split at failed
    · cases failed
    · cases failed
      rfl

end Descriptor

theorem Layout.toNat_payloadSize {base item lengthOffset size : Word} {payload : Payload}
    (known : (varsize base item lengthOffset).payloadSize payload = .ok size) :
    base.toNat + (payload.readWord lengthOffset.toNat).toNat * item.toNat = size.toNat := by
  simp only [payloadSize, bind, Except.bind] at known
  split at known
  · cases known
  · rename_i multiplied
    rw [Word.mul_eq_ok] at multiplied
    rw [Word.add_eq_ok] at known
    rw [multiplied, known]

def Layout.writableFrom : Layout → Nat
  | fixed _ => 0
  | varsize _ _ lengthOffset => lengthOffset.toNat + 8

theorem checkBounds_ok {offset width length : Word} (h : checkBounds offset width length = .ok ()) :
    offset.toNat + width.toNat ≤ length.toNat := by
  unfold checkBounds at h
  split at h
  · rename_i sum
    rw [Word.add?_eq_some] at sum
    split at h
    · rename_i inside
      have := UInt64.le_iff_toNat_le.mp inside
      omega
    · cases h
  · cases h

theorem checkBounds_eq_error {offset width length : Word} {fault : Fault}
    (h : checkBounds offset width length = .error fault) :
    fault = .outOfBounds width offset length := by
  unfold checkBounds at h
  split at h
  · split at h
    · cases h
    · cases h
      rfl
  · cases h
    rfl

namespace Heap

variable {σ : Type} {heap : Heap σ} {object : Ref} {offset : Word}

structure Readable (heap : Heap σ) (object : Ref) (descriptor : Descriptor) (length : Word) :
    Prop where
  known : heap.types.get? (heap.memory.header object).typeId = some descriptor
  payloadSize : descriptor.layout.payloadSize (heap.memory.payload object) = .ok length

theorem Consistent.readable (consistent : heap.Consistent) (live : object ∈ heap.live) :
    ∃ descriptor length, heap.Readable object descriptor length := by
  obtain ⟨cost, sized⟩ := consistent.sized object live
  rw [TypeTable.allocationCost_eq] at sized
  cases known : heap.types.get? (heap.memory.header object).typeId with
  | none =>
    rw [known] at sized
    cases sized
  | some descriptor =>
    rw [known] at sized
    cases read : descriptor.layout.payloadSize (heap.memory.payload object) with
    | error fault =>
      simp only [read] at sized
      cases sized
    | ok length => exact ⟨descriptor, length, known, read⟩

namespace Readable

variable {descriptor : Descriptor} {length : Word} (readable : heap.Readable object descriptor length)

include readable

theorem view_eq_ok : heap.view object = .ok
    { object, typeId := (heap.memory.header object).typeId, payloadLength := length,
      payload := heap.memory.payload object } := by
  simp only [view, TypeTable.view, TypeTable.expect, readable.known, readable.payloadSize, bind,
    Except.bind, pure, Except.pure]

theorem descriptorOf_eq_ok : heap.descriptorOf object = .ok descriptor :=
  Heap.descriptorOf_eq_ok.mpr readable.known

theorem children_eq : heap.types.children heap.memory object = descriptor.trace
    { object, typeId := (heap.memory.header object).typeId, payloadLength := length,
      payload := heap.memory.payload object } := by
  simp only [TypeTable.children, TypeTable.view, TypeTable.expect, readable.known,
    readable.payloadSize, bind, Except.bind, pure, Except.pure]

theorem length_inside (valid : heap.types.Valid) {base item lengthOffset : Word}
    (layout : descriptor.layout = .varsize base item lengthOffset) :
    lengthOffset.toNat + 8 ≤ length.toNat := by
  have sized := readable.payloadSize
  rw [layout] at sized
  have inside := Descriptor.length_inside_of_validate (valid _ _ readable.known) layout
  have fixed := Layout.toNat_payloadSize sized
  omega

theorem checkWritable_eq_ok (valid : heap.types.Valid) (inside : offset.toNat + 8 ≤ length.toNat)
    (apart : ∀ base item lengthOffset, descriptor.layout = .varsize base item lengthOffset →
      Payload.Apart offset.toNat lengthOffset.toNat) :
    checkWritable object offset heap = .ok () := by
  have bound := length.toNat_lt
  have within : checkBounds offset Word.size length = .ok () := checkBounds_eq_ok inside
  simp only [checkWritable, readable.view_eq_ok, readable.descriptorOf_eq_ok, within, bind,
    Except.bind]
  cases layout : descriptor.layout with
  | fixed size => rfl
  | varsize base item lengthOffset =>
    have counted := readable.length_inside valid layout
    refine Descriptor.checkDisjoint_eq_ok ?_ ?_ (apart _ _ _ layout) <;>
      simp only [UInt64.size] <;> omega

theorem checkWritable_eq_error (valid : heap.types.Valid) {fault : Fault}
    (failed : checkWritable object offset heap = .error fault) :
    fault = .outOfBounds Word.size offset length ∨ fault = .readOnlyLength object := by
  have bound := length.toNat_lt
  have size : Word.size.toNat = 8 := rfl
  simp only [checkWritable, readable.view_eq_ok, readable.descriptorOf_eq_ok, bind,
    Except.bind] at failed
  cases within : checkBounds offset Word.size length with
  | error found =>
    simp only [within] at failed
    cases failed
    exact .inl (checkBounds_eq_error within)
  | ok _ =>
    simp only [within] at failed
    have inside := checkBounds_ok within
    cases layout : descriptor.layout with
    | fixed size =>
      rw [layout] at failed
      cases failed
    | varsize base item lengthOffset =>
      rw [layout] at failed
      have counted := readable.length_inside valid layout
      refine .inr (Descriptor.checkDisjoint_eq_error ?_ ?_ failed) <;>
        simp only [UInt64.size] <;> omega

theorem fixedPart_le : descriptor.layout.fixedPart.toNat ≤ length.toNat := by
  have sized := readable.payloadSize
  cases layout : descriptor.layout with
  | fixed size =>
    rw [layout] at sized
    cases sized
    exact Nat.le_refl _
  | varsize base item lengthOffset =>
    rw [layout] at sized
    have fixed := Layout.toNat_payloadSize sized
    rw [Layout.fixedPart]
    omega

/-- There is always a part of the payload that can be written, if only an empty one: all that there
    is behind the length word, if there is one, up to the end of the payload. -/
theorem exists_writablePart (valid : heap.types.Valid) :
    ∃ start room, writablePart object heap = .ok (start, room) ∧
      start.toNat = descriptor.layout.writableFrom ∧
      start.toNat + room.toNat = length.toNat := by
  have bound := length.toNat_lt
  simp only [writablePart, readable.view_eq_ok, readable.descriptorOf_eq_ok, bind, Except.bind]
  cases layout : descriptor.layout with
  | fixed size => exact ⟨0, length, rfl, rfl, Nat.zero_add _⟩
  | varsize base item lengthOffset =>
    have counted := readable.length_inside valid layout
    obtain ⟨sum, start⟩ : Word.add lengthOffset Word.size = .ok (lengthOffset + 8) ∧
        (lengthOffset + 8).toNat = lengthOffset.toNat + 8 := by
      apply Word.add_size_eq_ok
      simp only [UInt64.size]
      omega
    have le : (lengthOffset + 8).toNat ≤ length.toNat := by omega
    have room : Word.sub length (lengthOffset + 8) = .ok (length - (lengthOffset + 8)) :=
      Word.sub_eq_ok le
    simp only [sum, room]
    refine ⟨_, _, rfl, start, ?_⟩
    rw [UInt64.toNat_sub_of_le _ _ (UInt64.le_iff_toNat_le.mpr le)]
    omega

end Readable

end Heap

end Reclaim
