import Reclaim.Proofs.Console.Slots
import Reclaim.Proofs.Cycle.Aftermath
import Reclaim.Proofs.Heap.Preservation

namespace Reclaim.Console.Kind

def held (kind : Kind) (payload : Payload) : List (Option Ref) :=
  (kind.offsets (payload.readWord 0).toNat).map fun offset =>
    Ref.ofWord? (payload.readWord offset)

theorem getElem?_offsets_vector (length slot : Nat) :
    (vector.offsets length)[slot]? = if slot < length then some (8 + 8 * slot) else none := by
  rw [offsets, List.getElem?_map]
  split
  · rename_i inside
    rw [List.getElem?_range inside]
    rfl
  · rename_i outside
    rw [List.getElem?_eq_none (by rw [List.length_range]; exact Nat.not_lt.mp outside)]
    rfl

section Offsets

variable {kind : Kind} {length i j a b : Nat}

theorem offset_eq (found : (kind.offsets length)[i]? = some a) :
    a = (if kind = .vector then 8 else 0) + 8 * i := by
  cases kind with
  | vector =>
    rw [getElem?_offsets_vector] at found
    split at found
    · exact (Option.some.inj found).symm
    · cases found
  | cell =>
    match i, found with
    | 0, found => cases found; rfl
    | 1, found => cases found; rfl
  | blob => cases found
  | weak =>
    match i, found with
    | 0, found => cases found; rfl

theorem offsets_apart (left : (kind.offsets length)[i]? = some a)
    (right : (kind.offsets length)[j]? = some b) (different : i ≠ j) : Payload.Apart a b := by
  rw [offset_eq left, offset_eq right]
  unfold Payload.Apart
  omega

theorem length_apart_offset (vectored : kind = .vector)
    (found : (kind.offsets length)[i]? = some a) : Payload.Apart a 0 := by
  rw [offset_eq found, if_pos vectored]
  exact .inr (by omega)

theorem offsets_eq_of_ne_vector (other : kind ≠ .vector) (length length' : Nat) :
    kind.offsets length = kind.offsets length' := by
  cases kind with
  | vector => exact absurd rfl other
  | cell => rfl
  | blob => rfl
  | weak => rfl

end Offsets

section Held

variable {kind : Kind} {payload : Payload} {slot offset : Nat}

theorem length_held : (kind.held payload).length =
    (kind.offsets (payload.readWord 0).toNat).length :=
  List.length_map _

theorem getElem?_held
    (found : (kind.offsets (payload.readWord 0).toNat)[slot]? = some offset) :
    (kind.held payload)[slot]? = some (Ref.ofWord? (payload.readWord offset)) := by
  rw [held, List.getElem?_map, found]
  rfl

theorem offsets_writeWord
    (found : (kind.offsets (payload.readWord 0).toNat)[slot]? = some offset) (word : Word) :
    kind.offsets ((payload.writeWord offset word).readWord 0).toNat =
      kind.offsets (payload.readWord 0).toNat := by
  by_cases vectored : kind = .vector
  · rw [Payload.readWord_writeWord_of_apart _ _ (length_apart_offset vectored found)]
  · exact offsets_eq_of_ne_vector vectored _ _

theorem held_writeWord
    (found : (kind.offsets (payload.readWord 0).toNat)[slot]? = some offset)
    (target : Option Ref) :
    kind.held (payload.writeWord offset (Ref.slotWord target)) =
      (kind.held payload).set slot target := by
  apply List.ext_getElem?
  intro i
  rw [held, offsets_writeWord found, List.getElem?_map, List.getElem?_set, held,
    List.getElem?_map, List.length_map]
  by_cases same : slot = i
  · subst same
    have inside := (List.getElem?_eq_some_iff.mp found).1
    rw [if_pos rfl, if_pos inside, found, Option.map_some, Payload.readWord_writeWord_self,
      Ref.ofWord?_slotWord]
  · rw [if_neg same]
    apply Option.map_congr
    intro place other
    rw [Payload.readWord_writeWord_of_apart _ _ (offsets_apart found other same)]

theorem held_of_blank (blank : ∀ slot offset : Nat,
    (kind.offsets (payload.readWord 0).toNat)[slot]? = some offset → payload.readWord offset = 0) :
    kind.held payload =
      List.replicate (kind.offsets (payload.readWord 0).toNat).length none := by
  rw [List.eq_replicate_iff]
  refine ⟨length_held, fun target member => ?_⟩
  obtain ⟨offset, listed, rfl⟩ := List.mem_map.mp member
  obtain ⟨slot, found⟩ := List.getElem?_of_mem listed
  rw [blank slot offset found]
  rfl

theorem held_cell : cell.held .zero = List.replicate 2 none :=
  held_of_blank fun _ offset _ => Payload.readWord_zero offset

theorem held_vector (length : Word) :
    vector.held (Payload.zero.writeWord 0 length) = List.replicate length.toNat none := by
  have recorded : (Payload.zero.writeWord 0 length).readWord 0 = length :=
    Payload.readWord_writeWord_self ..
  rw [held_of_blank, recorded, offsets, List.length_map, List.length_range]
  intro slot offset found
  rw [Payload.readWord_writeWord_of_apart _ _ (length_apart_offset rfl found).symm]
  exact Payload.readWord_zero _

theorem held_blob (payload : Payload) : blob.held payload = [] := rfl

end Held

section Heap

variable {σ : Type} {heap before after : Heap σ} {object o : Ref}

def contents (heap : Heap σ) (object : Ref) : List (Option Ref) :=
  (of heap object).held (heap.memory.payload object)

theorem of_congr (same : (after.memory.header o).typeId = (before.memory.header o).typeId) :
    of after o = of before o := by
  rw [of, of, same]

structure Kept (before after : Heap σ) (object : Ref) : Prop where
  kind : of after object = of before object
  contents : contents after object = contents before object ∨
    of before object = .weak ∧ contents after object = [none]

theorem Kept.refl : Kept heap heap object :=
  ⟨rfl, .inl rfl⟩

theorem Kept.trans {middle : Heap σ} (first : Kept before middle object)
    (second : Kept middle after object) : Kept before after object where
  kind := second.kind.trans first.kind
  contents := by
    rcases second.contents with same | ⟨weak, emptied⟩
    · rw [same]
      exact first.contents
    · exact .inr ⟨first.kind ▸ weak, emptied⟩

theorem Kept.mem_contents (kept : Kept before after object) {target : Ref}
    (held : some target ∈ Kind.contents after object) :
    some target ∈ Kind.contents before object := by
  rcases kept.contents with same | ⟨_, emptied⟩
  · exact same ▸ held
  · rw [emptied, List.mem_singleton] at held
    cases held

theorem kept_of_memory (same : after.memory = before.memory) : Kept before after object where
  kind := by rw [of, of, same]
  contents := .inl (by rw [contents, contents, of, of, same])

theorem contents_congr (kind : of after o = of before o)
    (payload : after.memory.payload o = before.memory.payload o) :
    contents after o = contents before o := by
  rw [contents, contents, kind, payload]

theorem kept_of_wrote {offset : Nat} {bytes : List UInt8}
    (h : before.Wrote after object offset bytes) (other : object ≠ o) : Kept before after o where
  kind := of_congr (h.sameShape o).typeId
  contents := .inl (contents_congr (of_congr (h.sameShape o).typeId) (by
    rw [h.payload, if_neg other]))

theorem contents_of_wrote {offset : Nat} {target : Option Ref}
    (h : before.Wrote after object offset (Ref.slotWord target).toBytes) {slot : Nat}
    (found : ((of before object).offsets (lengthOf before object))[slot]? = some offset) :
    of after object = of before object ∧
      contents after object = (contents before object).set slot target := by
  have kind : of after object = of before object := of_congr (h.sameShape object).typeId
  refine ⟨kind, ?_⟩
  rw [contents, kind, h.payload, if_pos rfl]
  exact held_writeWord found target

variable [RawMemory σ]

theorem kept_of_granted {request : Request} {cost : Word}
    (h : before.Granted after request cost object) (other : object ≠ o) : Kept before after o where
  kind := of_congr (h.sameShape other).typeId
  contents := .inl (contents_congr (of_congr (h.sameShape other).typeId) (by
    rw [h.payload, if_neg other]))

theorem of_granted {request : Request} {cost : Word}
    (h : before.Granted after request cost object) {kind : Kind}
    (typeId : request.typeId = kind.typeId) :
    of after object = kind ∧ contents after object = kind.held request.payload := by
  have same : of after object = kind := by
    rw [of, h.typeId, typeId, ofTypeId_typeId]
  refine ⟨same, ?_⟩
  rw [contents, same, h.payload, if_pos rfl]

theorem kept_of_reclaimed (types : before.types = Kind.types) {cycle : Cycle}
    (h : before.Reclaimed cycle after) (o : Ref) : Kept before after o where
  kind := of_congr (h.typeId o)
  contents := by
    by_cases emptied : o ∈ before.bereft
    · obtain ⟨slot, found, payload⟩ := h.payload_bereft o emptied
      obtain ⟨descriptor, known, weak⟩ := Option.bind_eq_some_iff.mp found
      rw [types] at known
      obtain ⟨kind, typeId, rfl⟩ := eq_of_get?_types known
      have kind_eq : of before o = kind := by rw [of, typeId, ofTypeId_typeId]
      cases kind with
      | weak =>
        cases weak
        refine .inr ⟨kind_eq, ?_⟩
        have written := @held_writeWord .weak (before.memory.payload o) 0 0 rfl none
        rw [contents, of_congr (h.typeId o), kind_eq, payload]
        exact written
      | cell => cases weak
      | vector => cases weak
      | blob => cases weak
    · exact .inl (contents_congr (of_congr (h.typeId o)) (h.payload_kept o emptied))

end Heap

end Reclaim.Console.Kind
