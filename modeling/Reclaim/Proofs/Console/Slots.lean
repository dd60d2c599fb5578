import Reclaim.Console.Kind
import Reclaim.Proofs.Heap.Access

namespace Reclaim

theorem Word.exists_toNat_eq {n : Nat} (small : n < UInt64.size) : ∃ word : Word, word.toNat = n :=
  ⟨UInt64.ofNat n, UInt64.toNat_ofNat_of_lt' small⟩

theorem Trace.scan_eq_ok {view : View} {first stride : Word} {count : Nat} {index : Word}
    {found : List Ref}
    (inside : ∀ i, index.toNat ≤ i → i < index.toNat + count →
      first.toNat + i * stride.toNat + 8 ≤ view.payloadLength.toNat)
    (bound : index.toNat + count < UInt64.size) :
    scan view first stride count index found =
      .ok (found.reverse ++ (List.range' index.toNat count).filterMap fun i =>
        Ref.ofWord? (view.payload.readWord (first.toNat + i * stride.toNat))) := by
  induction count generalizing index found with
  | zero => simp [scan]
  | succ count ih =>
    have limit : view.payloadLength.toNat < UInt64.size := view.payloadLength.toNat_lt
    have here := inside index.toNat (Nat.le_refl _) (by omega)
    obtain ⟨product, multiplied⟩ := Word.exists_toNat_eq (n := index.toNat * stride.toNat) (by omega)
    obtain ⟨offset, added⟩ := Word.exists_toNat_eq (n := first.toNat + product.toNat) (by omega)
    have next : (index + 1).toNat = index.toNat + 1 := by
      rw [UInt64.toNat_add]
      exact Nat.mod_eq_of_lt (by
        have one : (1 : Word).toNat = 1 := rfl
        simp only [UInt64.size] at bound
        omega)
    have rest (found : List Ref) := @ih (index + 1) found
      (fun i low high => inside i (by omega) (by omega)) (by omega)
    have read : view.readRef offset =
        .ok (Ref.ofWord? (view.payload.readWord (first.toNat + index.toNat * stride.toNat))) := by
      rw [← multiplied, ← added]
      exact View.readRef_eq_ok (by omega)
    simp only [scan, Word.mul_eq_ok.mpr multiplied.symm, Word.add_eq_ok.mpr added.symm, read, rest,
      next, bind, Except.bind]
    rw [List.range'_succ, List.filterMap_cons]
    cases Ref.ofWord? (view.payload.readWord (first.toNat + index.toNat * stride.toNat)) <;> simp

namespace Console.Kind

def offsets : Kind → Nat → List Nat
  | cell, _ => [0, 8]
  | vector, length => (List.range length).map fun slot => 8 + 8 * slot
  | blob, _ => []
  | weak, _ => [0]

def traced : Kind → Option Word → List Word
  | cell, _ => [0, 8]
  | vector, some length =>
    if 8 + 8 * length.toNat < UInt64.size then
      (List.range length.toNat).map fun slot => UInt64.ofNat (8 + 8 * slot)
    else []
  | _, _ => []

def slots : SlotMap := fun typeId => (ofTypeId typeId).traced

theorem eq_of_get?_types {typeId : TypeId} {descriptor : Descriptor}
    (known : types.get? typeId = some descriptor) :
    ∃ kind : Kind, typeId = kind.typeId ∧ descriptor = kind.descriptor := by
  obtain ⟨inside, found⟩ := Array.getElem?_eq_some_iff.mp known
  obtain ⟨kind, same⟩ : ∃ kind : Kind, typeId = kind.typeId := by
    have size : types.types.size = 4 := rfl
    have position : typeId.index.toNat = 0 ∨ typeId.index.toNat = 1 ∨ typeId.index.toNat = 2 ∨
        typeId.index.toNat = 3 := by omega
    obtain ⟨index⟩ := typeId
    rcases position with first | second | third | fourth
    · exact ⟨cell, congrArg TypeId.mk (UInt16.toNat_inj.mp first)⟩
    · exact ⟨vector, congrArg TypeId.mk (UInt16.toNat_inj.mp second)⟩
    · exact ⟨blob, congrArg TypeId.mk (UInt16.toNat_inj.mp third)⟩
    · exact ⟨weak, congrArg TypeId.mk (UInt16.toNat_inj.mp fourth)⟩
  rw [same, get?_types] at known
  exact ⟨kind, same, (Option.some.inj known).symm⟩

theorem valid_types : types.Valid := by
  intro typeId descriptor known
  obtain ⟨kind, _, rfl⟩ := eq_of_get?_types known
  cases kind <;> rfl

theorem toNat_item {length slot : Nat} (fits : 8 + 8 * length < UInt64.size)
    (inside : slot < length) : (UInt64.ofNat (8 + 8 * slot)).toNat = 8 + 8 * slot :=
  UInt64.toNat_ofNat_of_lt' (by omega)

theorem mem_traced_vector {length offset : Word} (member : offset ∈ vector.traced (some length)) :
    ∃ slot < length.toNat, 8 + 8 * length.toNat < UInt64.size ∧ offset.toNat = 8 + 8 * slot := by
  rw [traced] at member
  split at member
  · rename_i fits
    obtain ⟨slot, inside, rfl⟩ := List.mem_map.mp member
    rw [List.mem_range] at inside
    exact ⟨slot, inside, fits, toNat_item fits inside⟩
  · cases member

theorem toNat_payloadSize_vector {payload : Payload} {size : Word}
    (sized : vector.layout.payloadSize payload = .ok size) :
    8 + 8 * (payload.readWord 0).toNat = size.toNat := by
  have total : 8 + (payload.readWord 0).toNat * 8 = size.toNat := Layout.toNat_payloadSize sized
  omega

theorem trace_vector {view : View}
    (sized : vector.layout.payloadSize view.payload = .ok view.payloadLength) :
    vector.descriptor.trace view =
      .ok ((List.range (view.payload.readWord 0).toNat).filterMap fun slot =>
        Ref.ofWord? (view.payload.readWord (8 + 8 * slot))) := by
  have total := toNat_payloadSize_vector sized
  have bound : view.payloadLength.toNat < UInt64.size := view.payloadLength.toNat_lt
  have eight : (8 : Word).toNat = 8 := rfl
  have zero : (0 : Word).toNat = 0 := rfl
  have length : view.readWord 0 = .ok (view.payload.readWord 0) :=
    View.readWord_eq_ok (by omega)
  have scanned := @Trace.scan_eq_ok view 8 8 (view.payload.readWord 0).toNat 0 []
    (by intro i _ inside; rw [eight]; omega) (by omega)
  have traced : vector.descriptor.trace view =
      Trace.scan view 8 8 (view.payload.readWord 0).toNat 0 [] := by
    simp only [descriptor, Trace.items, length, bind, Except.bind]
  rw [traced, scanned, eight, zero, List.range_eq_range', List.reverse_nil, List.nil_append]
  simp only [Nat.mul_comm]

theorem slotted_vector : vector.descriptor.Slotted vector.traced where
  reports := by
    intro view sized
    have total := toNat_payloadSize_vector sized
    have fits : 8 + 8 * (view.payload.readWord 0).toNat < UInt64.size :=
      total ▸ view.payloadLength.toNat_lt
    refine ⟨_, trace_vector sized, fun child => ?_⟩
    have length : vector.descriptor.layout.length? view.payload = some (view.payload.readWord 0) :=
      rfl
    rw [length, List.mem_filterMap, traced, if_pos fits]
    constructor
    · rintro ⟨slot, inside, held⟩
      refine ⟨_, List.mem_map_of_mem inside, ?_⟩
      rw [toNat_item fits (List.mem_range.mp inside)]
      exact held
    · rintro ⟨offset, member, held⟩
      obtain ⟨slot, inside, rfl⟩ := List.mem_map.mp member
      rw [toNat_item fits (List.mem_range.mp inside)] at held
      exact ⟨slot, inside, held⟩
  apart := by
    intro length
    cases length with
    | none => exact .nil
    | some length =>
      rw [traced]
      split
      · rename_i fits
        rw [List.pairwise_map]
        refine List.pairwise_lt_range.imp_of_mem ?_
        intro a b first second less
        rw [List.mem_range] at first second
        rw [toNat_item fits first, toNat_item fits second]
        left
        omega
      · exact .nil
  weak := nofun
  length := by
    intro length offset member base item lengthOffset layout
    cases layout
    cases length with
    | none => cases member
    | some length =>
      obtain ⟨slot, _, _, place⟩ := mem_traced_vector member
      have zero : (0 : Word).toNat = 0 := rfl
      right
      omega

theorem slotted_of_untraced {kind : Kind} (trace : kind.descriptor.trace = .none)
    (none : ∀ length, kind.traced length = []) : kind.descriptor.Slotted kind.traced where
  reports := by
    intro view _
    rw [trace, none]
    exact ⟨[], rfl, by simp⟩
  apart := by
    intro length
    rw [none]
    exact .nil
  weak := by
    intro length slot member
    rw [none] at member
    cases member
  length := by
    intro length slot member
    rw [none] at member
    cases member

theorem slotted (kind : Kind) : kind.descriptor.Slotted kind.traced := by
  cases kind with
  | cell =>
    refine Descriptor.slotted_of_slots rfl rfl (by simp) ?_ nofun
    exact List.pairwise_pair.mpr (.inl (by simp))
  | vector => exact slotted_vector
  | blob => exact slotted_of_untraced rfl fun _ => rfl
  | weak => exact slotted_of_untraced rfl fun _ => rfl

theorem slotted_types : types.Slotted slots := by
  intro typeId descriptor known
  obtain ⟨kind, rfl, rfl⟩ := eq_of_get?_types known
  rw [slots, ofTypeId_typeId]
  exact slotted kind

section Objects

variable {σ : Type} {heap : Heap σ} {object : Ref} {descriptor : Descriptor} {size : Word}

def lengthOf (heap : Heap σ) (object : Ref) : Nat :=
  ((heap.memory.payload object).readWord 0).toNat

theorem eq_of_readable (types_eq : heap.types = types)
    (readable : heap.Readable object descriptor size) :
    (heap.memory.header object).typeId = (of heap object).typeId ∧
      descriptor = (of heap object).descriptor := by
  have known := readable.known
  rw [types_eq] at known
  obtain ⟨kind, same, rfl⟩ := eq_of_get?_types known
  have kinds : of heap object = kind := by rw [of, same, ofTypeId_typeId]
  rw [kinds]
  exact ⟨same, rfl⟩

theorem offset_inside (types_eq : heap.types = types)
    (readable : heap.Readable object descriptor size) {offset : Nat}
    (member : offset ∈ (of heap object).offsets (lengthOf heap object)) :
    offset + 8 ≤ size.toNat := by
  have sized := readable.payloadSize
  rw [(eq_of_readable types_eq readable).2] at sized
  cases kind : of heap object with
  | cell =>
    rw [kind] at sized member
    cases sized
    have sixteen : (16 : Word).toNat = 16 := rfl
    rcases List.mem_pair.mp member with rfl | rfl <;> omega
  | vector =>
    rw [kind] at sized member
    have total := toNat_payloadSize_vector sized
    obtain ⟨slot, inside, rfl⟩ := List.mem_map.mp member
    rw [List.mem_range, lengthOf] at inside
    omega
  | blob =>
    rw [kind] at member
    cases member
  | weak =>
    rw [kind] at sized member
    cases sized
    have eight : (8 : Word).toNat = 8 := rfl
    rw [List.mem_singleton.mp member]
    omega

theorem mem_slotsOf (types_eq : heap.types = types)
    (readable : heap.Readable object descriptor size) {slot : Word}
    (member : slot.toNat ∈ (of heap object).offsets (lengthOf heap object)) :
    slot ∈ heap.types.slotsOf slots heap.memory object := by
  obtain ⟨typeId, same⟩ := eq_of_readable types_eq readable
  have sized := readable.payloadSize
  rw [TypeTable.mem_slotsOf, TypeTable.tracedSlots, TypeTable.weakSlot?, readable.known, same,
    typeId, slots, ofTypeId_typeId]
  rw [same] at sized
  have word {n : Word} (at_offset : slot.toNat = n.toNat) : slot = n := UInt64.toNat_inj.mp at_offset
  cases kind : of heap object with
  | cell =>
    rw [kind] at member
    rcases List.mem_pair.mp member with first | second
    · exact .inl (List.mem_pair.mpr (.inl (word first)))
    · exact .inl (List.mem_pair.mpr (.inr (word second)))
  | vector =>
    rw [kind] at sized member
    have total := toNat_payloadSize_vector sized
    have fits : 8 + 8 * ((heap.memory.payload object).readWord 0).toNat < UInt64.size :=
      total ▸ size.toNat_lt
    obtain ⟨index, inside, place⟩ := List.mem_map.mp member
    have item := toNat_item fits (List.mem_range.mp inside)
    left
    have listed : vector.traced (some ((heap.memory.payload object).readWord 0)) =
        (List.range (lengthOf heap object)).map fun slot => UInt64.ofNat (8 + 8 * slot) :=
      if_pos fits
    change slot ∈ vector.traced (some ((heap.memory.payload object).readWord 0))
    rw [listed, List.mem_map]
    exact ⟨index, inside, (word (place.symm.trans item.symm)).symm⟩
  | blob =>
    rw [kind] at member
    cases member
  | weak =>
    rw [kind] at member
    have first : slot = 0 := word (List.mem_singleton.mp member)
    right
    rw [first]
    rfl

theorem toNat_mul_size {slot : Word} (small : slot.toNat * 8 < UInt64.size) :
    (slot * Word.size).toNat = slot.toNat * 8 := by
  rw [UInt64.toNat_mul]
  exact Nat.mod_eq_of_lt small

theorem toNat_offset_cell {slot : Word} (small : slot < 2) (length : Nat) :
    some (slot * Word.size).toNat = (cell.offsets length)[slot.toNat]? := by
  rw [UInt64.lt_iff_toNat_lt] at small
  have two : (2 : Word).toNat = 2 := rfl
  rw [toNat_mul_size (by simp only [UInt64.size]; omega)]
  have position : slot.toNat = 0 ∨ slot.toNat = 1 := by omega
  rcases position with first | second
  · rw [first]
    rfl
  · rw [second]
    rfl

theorem exists_item {slot : Word} {length : Nat} (fits : 8 + 8 * length < UInt64.size)
    (inside : slot.toNat < length) :
    ∃ product offset, Word.mul slot Word.size = .ok product ∧ Word.add 8 product = .ok offset ∧
      offset.toNat = 8 + 8 * slot.toNat := by
  obtain ⟨product, multiplied⟩ := Word.exists_toNat_eq (n := slot.toNat * 8) (by omega)
  obtain ⟨offset, added⟩ := Word.exists_toNat_eq (n := 8 + product.toNat) (by omega)
  exact ⟨product, offset, Word.mul_eq_ok.mpr multiplied.symm, Word.add_eq_ok.mpr added.symm,
    by omega⟩

theorem exists_slotOffset (types_eq : heap.types = types)
    (readable : heap.Readable object descriptor size) (slot : Word) :
    ∃ found, slotOffset heap object slot = .ok found ∧
      found.map UInt64.toNat = ((of heap object).offsets (lengthOf heap object))[slot.toNat]? := by
  have same := (eq_of_readable types_eq readable).2
  have sized := readable.payloadSize
  rw [same] at sized
  rw [slotOffset]
  cases kind : of heap object with
  | cell =>
    refine ⟨_, rfl, ?_⟩
    split
    · rename_i small
      exact toNat_offset_cell small _
    · rename_i large
      rw [UInt64.lt_iff_toNat_lt] at large
      exact (List.getElem?_eq_none (Nat.not_lt.mp large)).symm
  | vector =>
    rw [kind] at sized same
    have total := toNat_payloadSize_vector sized
    have length : heap.lengthOf object = .ok (some ((heap.memory.payload object).readWord 0)) := by
      simp only [Heap.lengthOf, readable.descriptorOf_eq_ok, same, bind, Except.bind, pure,
        Except.pure]
      rfl
    have fits : 8 + 8 * ((heap.memory.payload object).readWord 0).toNat < UInt64.size :=
      total ▸ size.toNat_lt
    simp only [length, bind, Except.bind, Option.getD_some]
    rw [offsets, List.getElem?_map]
    by_cases inside : slot < (heap.memory.payload object).readWord 0
    · rw [if_pos inside]
      rw [UInt64.lt_iff_toNat_lt] at inside
      obtain ⟨product, offset, multiplied, added, place⟩ := exists_item fits inside
      simp only [multiplied, added, pure, Except.pure]
      rw [List.getElem?_range (show slot.toNat < lengthOf heap object from inside)]
      exact ⟨_, rfl, congrArg some place⟩
    · rw [if_neg inside]
      rw [UInt64.lt_iff_toNat_lt] at inside
      rw [List.getElem?_eq_none (by rw [List.length_range]; exact Nat.not_lt.mp inside)]
      exact ⟨none, rfl, rfl⟩
  | blob => exact ⟨none, rfl, rfl⟩
  | weak =>
    refine ⟨_, rfl, ?_⟩
    split
    · rename_i first
      rw [first]
      rfl
    · rename_i other
      have large : slot.toNat ≠ 0 := fun same => other (UInt64.toNat_inj.mp same)
      exact (List.getElem?_eq_none (Nat.pos_of_ne_zero large)).symm

end Objects

end Console.Kind

end Reclaim
