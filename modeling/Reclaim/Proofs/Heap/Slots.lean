import Mathlib.Data.List.Pairwise
import Reclaim.Proofs.Object.Types

namespace Reclaim

theorem Ref.ofWord?_eq_none {word : Word} (h : ofWord? word = none) : word = 0 := by
  have same := slotWord_ofWord? word
  rw [h] at same
  exact same.symm

theorem Ref.eq_of_ofWord?_eq_some {word : Word} {object : Ref} (h : ofWord? word = some object) :
    word = object.word := by
  have same := slotWord_ofWord? word
  rw [h] at same
  exact same.symm

abbrev SlotMap := TypeId → Option Word → List Word

/-- What a type with slots at given offsets promises: it reports what is in them, and they overlap
    neither each other nor the weak slot nor the length word. -/
structure Descriptor.Slotted (descriptor : Descriptor) (slots : Option Word → List Word) :
    Prop where
  reports : ∀ view : View, descriptor.layout.payloadSize view.payload = .ok view.payloadLength →
    ∃ children, descriptor.trace view = .ok children ∧ ∀ child, child ∈ children ↔
      ∃ slot ∈ slots (descriptor.layout.length? view.payload),
        Ref.ofWord? (view.payload.readWord slot.toNat) = some child
  apart : ∀ length, (slots length).Pairwise fun a b => Payload.Apart a.toNat b.toNat
  weak : ∀ length, ∀ slot ∈ slots length, ∀ weak, descriptor.weakOffset = some weak →
    Payload.Apart slot.toNat weak.toNat
  length : ∀ length, ∀ slot ∈ slots length, ∀ base item lengthOffset,
    descriptor.layout = .varsize base item lengthOffset →
      Payload.Apart slot.toNat lengthOffset.toNat

theorem checkBounds_eq_ok {offset width length : Word}
    (inside : offset.toNat + width.toNat ≤ length.toNat) :
    checkBounds offset width length = .ok () := by
  have bound := length.toNat_lt
  have size : UInt64.size = 2 ^ 64 := rfl
  unfold checkBounds
  cases sum : Word.add? offset width with
  | none =>
    have overflow := Word.add?_eq_none.mp sum
    omega
  | some last =>
    have total := Word.add?_eq_some.mp sum
    have le : last ≤ length := by
      rw [UInt64.le_iff_toNat_le]
      omega
    simp only [if_pos le]

section View

variable {view : View} {offset : Word}

theorem View.readWord_eq_ok (inside : offset.toNat + 8 ≤ view.payloadLength.toNat) :
    view.readWord offset = .ok (view.payload.readWord offset.toNat) := by
  have bounds : checkBounds offset Word.size view.payloadLength = .ok () :=
    checkBounds_eq_ok inside
  simp only [readWord, bounds, bind, Except.bind, pure, Except.pure]

theorem View.readRef_eq_ok (inside : offset.toNat + 8 ≤ view.payloadLength.toNat) :
    view.readRef offset = .ok (Ref.ofWord? (view.payload.readWord offset.toNat)) := by
  simp only [readRef, View.readWord_eq_ok inside, bind, Except.bind, pure, Except.pure]

end View

theorem Trace.slots_eq_ok {view : View} {offsets : List Word}
    (inside : ∀ slot ∈ offsets, slot.toNat + 8 ≤ view.payloadLength.toNat) :
    slots offsets view =
      .ok (offsets.filterMap fun slot => Ref.ofWord? (view.payload.readWord slot.toNat)) := by
  have read : offsets.mapM view.readRef =
      .ok (offsets.map fun slot => Ref.ofWord? (view.payload.readWord slot.toNat)) := by
    induction offsets with
    | nil => rfl
    | cons slot rest ih =>
      have first := View.readRef_eq_ok (inside slot List.mem_cons_self)
      have others := ih fun slot member => inside slot (List.mem_cons_of_mem _ member)
      rw [List.mapM_cons, first, others]
      rfl
  simp only [slots, read, bind, Except.bind, pure, Except.pure, List.filterMap_map]
  rfl

theorem Descriptor.slotted_of_slots {descriptor : Descriptor} {size : Word} {offsets : List Word}
    (layout : descriptor.layout = .fixed size) (trace : descriptor.trace = .slots offsets)
    (inside : ∀ slot ∈ offsets, slot.toNat + 8 ≤ size.toNat)
    (apart : offsets.Pairwise fun a b => Payload.Apart a.toNat b.toNat)
    (weak : ∀ slot ∈ offsets, ∀ weak, descriptor.weakOffset = some weak →
      Payload.Apart slot.toNat weak.toNat) : descriptor.Slotted fun _ => offsets where
  reports := by
    intro view sized
    rw [layout, Layout.payloadSize, Except.ok.injEq] at sized
    subst sized
    rw [trace]
    refine ⟨_, Trace.slots_eq_ok inside, ?_⟩
    intro child
    exact List.mem_filterMap
  apart := fun _ => apart
  weak := fun _ => weak
  length := by
    intro _ slot _ base item lengthOffset varsize
    rw [layout] at varsize
    cases varsize

def TypeTable.Slotted (types : TypeTable) (slots : SlotMap) : Prop :=
  ∀ typeId descriptor, types.get? typeId = some descriptor → descriptor.Slotted (slots typeId)

namespace TypeTable

variable {types : TypeTable} {slots : SlotMap} {memory before after : Memory} {object : Ref}

def tracedSlots (types : TypeTable) (slots : SlotMap) (memory : Memory) (object : Ref) :
    List Word :=
  match types.get? (memory.header object).typeId with
  | some descriptor =>
    slots (memory.header object).typeId (descriptor.layout.length? (memory.payload object))
  | none => []

def slotsOf (types : TypeTable) (slots : SlotMap) (memory : Memory) (object : Ref) : List Word :=
  types.tracedSlots slots memory object ++ (types.weakSlot? memory object).toList

theorem slotsOf_congr (same : types.SameShape before after object) :
    types.slotsOf slots after object = types.slotsOf slots before object := by
  have traced : types.tracedSlots slots after object = types.tracedSlots slots before object := by
    rw [tracedSlots, tracedSlots, same.typeId]
    cases known : types.get? (before.header object).typeId with
    | none => rfl
    | some descriptor => simp only [same.length descriptor known]
  rw [slotsOf, slotsOf, traced, weakSlot?_congr same.typeId]

theorem mem_slotsOf {slot : Word} : slot ∈ types.slotsOf slots memory object ↔
    slot ∈ types.tracedSlots slots memory object ∨ types.weakSlot? memory object = some slot := by
  rw [slotsOf, List.mem_append, Option.mem_toList]

def target? (memory : Memory) (object : Ref) (slot : Word) : Option Ref :=
  Ref.ofWord? ((memory.payload object).readWord slot.toNat)

theorem traced_apart_weak (slotted : types.Slotted slots) {slot weak : Word}
    (traced : slot ∈ types.tracedSlots slots memory object)
    (found : types.weakSlot? memory object = some weak) :
    Payload.Apart slot.toNat weak.toNat := by
  rw [tracedSlots] at traced
  cases known : types.get? (memory.header object).typeId with
  | none =>
    rw [known] at traced
    cases traced
  | some descriptor =>
    rw [known] at traced
    have offset : descriptor.weakOffset = some weak := by simpa [weakSlot?, known] using found
    exact (slotted _ _ known).weak _ slot traced weak offset

theorem eq_or_apart (slotted : types.Slotted slots) {a b : Word}
    (first : a ∈ types.slotsOf slots memory object)
    (second : b ∈ types.slotsOf slots memory object) :
    a = b ∨ Payload.Apart a.toNat b.toNat := by
  rw [mem_slotsOf] at first second
  rcases first with first | first <;> rcases second with second | second
  · rw [tracedSlots] at first second
    cases known : types.get? (memory.header object).typeId with
    | none =>
      rw [known] at first
      cases first
    | some descriptor =>
      rw [known] at first second
      by_cases same : a = b
      · exact .inl same
      · right
        have apart := (slotted _ _ known).apart (descriptor.layout.length? (memory.payload object))
        have symm : Std.Symm fun a b : Word => Payload.Apart a.toNat b.toNat :=
          ⟨fun _ _ h => h.symm⟩
        exact apart.forall first second same
  · exact .inr (traced_apart_weak slotted first second)
  · exact .inr (traced_apart_weak slotted second first).symm
  · rw [first] at second
    cases second
    exact .inl rfl

theorem length_apart (valid : types.Valid) (slotted : types.Slotted slots) {slot : Word}
    (member : slot ∈ types.slotsOf slots memory object) {descriptor : Descriptor}
    (known : types.get? (memory.header object).typeId = some descriptor)
    {base item lengthOffset : Word} (layout : descriptor.layout = .varsize base item lengthOffset) :
    Payload.Apart slot.toNat lengthOffset.toNat := by
  rcases mem_slotsOf.mp member with traced | weak
  · rw [tracedSlots, known] at traced
    exact (slotted _ _ known).length _ slot traced _ _ _ layout
  · have offset : descriptor.weakOffset = some slot := by simpa [weakSlot?, known] using weak
    exact Descriptor.weak_apart_of_validate (valid _ _ known) offset layout

theorem children_of_slotted (slotted : types.Slotted slots) {cost : Word}
    (sized : types.allocationCost memory object = .ok cost) :
    ∃ children, types.children memory object = .ok children ∧ ∀ child, child ∈ children ↔
      ∃ slot ∈ types.tracedSlots slots memory object, target? memory object slot = some child := by
  rw [allocationCost_eq] at sized
  cases known : types.get? (memory.header object).typeId with
  | none =>
    rw [known] at sized
    cases sized
  | some descriptor =>
    rw [known] at sized
    cases read : descriptor.layout.payloadSize (memory.payload object) with
    | error fault =>
      simp only [read] at sized
      cases sized
    | ok size =>
      obtain ⟨children, reported, same⟩ := (slotted _ _ known).reports
        { object, typeId := (memory.header object).typeId, payloadLength := size,
          payload := memory.payload object } read
      refine ⟨children, ?_, ?_⟩
      · simp only [TypeTable.children, view, expect, known, bind, Except.bind, read, pure,
          Except.pure]
        exact reported
      · rw [tracedSlots, known]
        exact same

end TypeTable

end Reclaim
