import Mathlib.Data.List.Zip
import Reclaim.Proofs.Heap.Access
import Reclaim.Proofs.Run.References

namespace Reclaim

abbrev Pairing := List (Ref × Ref)

namespace Pairing

def Pairs (pairing : Pairing) (a b : Ref) : Prop :=
  (a, b) ∈ pairing

abbrev Links (pairing : Pairing) : Option Ref → Option Ref → Prop :=
  Option.Rel pairing.Pairs

def flip (pairing : Pairing) : Pairing :=
  pairing.map Prod.swap

variable {pairing wider : Pairing} {first second : List Ref} {a b c d : Ref}
  {target target' : Option Ref}

theorem pairs_flip : pairing.flip.Pairs b a ↔ pairing.Pairs a b := by
  simp [Pairs, flip]

theorem Links.flip (h : pairing.Links target target') : pairing.flip.Links target' target := by
  cases h with
  | some pair => exact .some (pairs_flip.mpr pair)
  | none => exact .none

theorem Links.mono (sub : pairing ⊆ wider) (h : pairing.Links target target') :
    wider.Links target target' := by
  cases h with
  | some pair => exact .some (sub pair)
  | none => exact .none

theorem exists_of_mem (same : second.length = first.length) (member : a ∈ first) :
    ∃ b, (a, b) ∈ first.zip second := by
  obtain ⟨i, inside, rfl⟩ := List.getElem_of_mem member
  have inside' : i < (first.zip second).length := by
    rw [List.length_zip]
    omega
  refine ⟨second[i], ?_⟩
  rw [← List.getElem_zip (h := inside')]
  exact List.getElem_mem inside'

theorem eq_iff_eq (nodup : first.Nodup) (nodup' : second.Nodup) (h : (a, b) ∈ first.zip second)
    (h' : (c, d) ∈ first.zip second) : a = c ↔ b = d := by
  obtain ⟨i, inside, at_i⟩ := List.getElem_of_mem h
  obtain ⟨j, inside', at_j⟩ := List.getElem_of_mem h'
  rw [List.getElem_zip, Prod.mk.injEq] at at_i at_j
  rw [← at_i.1, ← at_j.1, ← at_i.2, ← at_j.2, nodup.getElem_inj_iff, nodup'.getElem_inj_iff]

theorem exists_of_forall₂ {α : Type} {related : α → α → Prop} {l l' : List α} {x : α}
    (h : List.Forall₂ related l l') (member : x ∈ l) : ∃ y ∈ l', related x y := by
  induction h with
  | nil => cases member
  | @cons x' y _ _ first _ ih =>
    rcases List.mem_cons.mp member with rfl | member
    · exact ⟨y, List.mem_cons_self, first⟩
    · obtain ⟨y, listed, relates⟩ := ih member
      exact ⟨y, List.mem_cons_of_mem _ listed, relates⟩

end Pairing

namespace TypeTable

def OffSlots (types : TypeTable) (slots : SlotMap) (memory : Memory) (object : Ref) (i : Nat) :
    Prop :=
  ∀ slot ∈ types.slotsOf slots memory object, i < slot.toNat ∨ slot.toNat + 8 ≤ i

/-- An object of one memory and an object of another that have the same header and the same bytes,
    but for their slots, which hold counterparts. -/
structure Twins (types : TypeTable) (slots : SlotMap) (pairing : Pairing) (memory other : Memory)
    (a b : Ref) : Prop where
  headerWord : other.headerWord b = memory.headerWord a
  length : ∀ descriptor, types.get? (memory.header a).typeId = some descriptor →
    descriptor.layout.length? (other.payload b) = descriptor.layout.length? (memory.payload a)
  target : ∀ slot ∈ types.slotsOf slots memory a,
    pairing.Links (target? memory a slot) (target? other b slot)
  byte : ∀ i, types.OffSlots slots memory a i →
    (other.payload b).byte i = (memory.payload a).byte i

namespace Twins

variable {types : TypeTable} {slots : SlotMap} {pairing wider : Pairing}
  {memory other memory' other' : Memory} {a b : Ref}

section

variable (h : types.Twins slots pairing memory other a b)

include h

theorem header : other.header b = memory.header a := by
  rw [Memory.header, h.headerWord, Memory.header]

theorem flags : other.flags b = memory.flags a := by
  rw [Memory.flags, h.header, Memory.flags]

theorem isSurviving : other.isSurviving b = memory.isSurviving a := by
  rw [Memory.isSurviving, h.flags, Memory.isSurviving]

theorem tracedSlots : types.tracedSlots slots other b = types.tracedSlots slots memory a := by
  rw [TypeTable.tracedSlots, TypeTable.tracedSlots, h.header]
  cases known : types.get? (memory.header a).typeId with
  | none => rfl
  | some descriptor => simp only [h.length descriptor known]

theorem weakSlot? : types.weakSlot? other b = types.weakSlot? memory a := by
  rw [TypeTable.weakSlot?, TypeTable.weakSlot?, h.header]

theorem slotsOf : types.slotsOf slots other b = types.slotsOf slots memory a := by
  rw [TypeTable.slotsOf, TypeTable.slotsOf, h.tracedSlots, h.weakSlot?]

theorem payloadSize {descriptor : Descriptor}
    (known : types.get? (memory.header a).typeId = some descriptor) :
    descriptor.layout.payloadSize (other.payload b) =
      descriptor.layout.payloadSize (memory.payload a) :=
  Layout.payloadSize_congr (h.length descriptor known)

theorem allocationCost {cost : Word} (known : types.allocationCost memory a = .ok cost) :
    types.allocationCost other b = .ok cost := by
  rw [allocationCost_eq] at known ⊢
  rw [h.header]
  cases found : types.get? (memory.header a).typeId with
  | none =>
    rw [found] at known
    cases known
  | some descriptor =>
    simp only [found, h.payloadSize found] at known ⊢
    cases size : descriptor.layout.payloadSize (memory.payload a) with
    | error fault =>
      simp only [size] at known
      cases known
    | ok size' =>
      simp only [size] at known ⊢
      cases total : allocationCost? size' with
      | none =>
        rw [total] at known
        cases known
      | some cost =>
        rw [total] at known
        exact known

theorem mono (sub : pairing ⊆ wider) : types.Twins slots wider memory other a b :=
  { h with target := fun slot inside => (h.target slot inside).mono sub }

theorem flip : types.Twins slots pairing.flip other memory b a where
  headerWord := h.headerWord.symm
  length := by
    intro descriptor known
    rw [h.header] at known
    exact (h.length descriptor known).symm
  target := by
    intro slot inside
    rw [h.slotsOf] at inside
    exact (h.target slot inside).flip
  byte := by
    intro i off
    rw [OffSlots, h.slotsOf] at off
    exact (h.byte i off).symm

theorem weakTarget? :
    pairing.Links (types.weakTarget? memory a) (types.weakTarget? other b) := by
  rw [TypeTable.weakTarget?, TypeTable.weakTarget?, h.weakSlot?]
  cases found : types.weakSlot? memory a with
  | none => exact .none
  | some slot => exact h.target slot (mem_slotsOf.mpr (.inr found))

theorem of_sameShape (shape : types.SameShape memory memory' a)
    (shape' : types.SameShape other other' b)
    (headerWord : other'.headerWord b = memory'.headerWord a)
    (target : ∀ slot ∈ types.slotsOf slots memory a,
      wider.Links (target? memory' a slot) (target? other' b slot))
    (byte : ∀ i, types.OffSlots slots memory a i →
      (other'.payload b).byte i = (memory'.payload a).byte i) :
    types.Twins slots wider memory' other' a b where
  headerWord := headerWord
  length := by
    intro descriptor known
    rw [shape.typeId] at known
    have known' := known
    rw [← h.header] at known'
    rw [shape'.length descriptor known', shape.length descriptor known, h.length descriptor known]
  target := by
    intro slot inside
    rw [slotsOf_congr shape] at inside
    exact target slot inside
  byte := by
    intro i off
    rw [OffSlots, slotsOf_congr shape] at off
    exact byte i off

theorem frame (headerWord : memory'.headerWord a = memory.headerWord a)
    (payload : memory'.payload a = memory.payload a)
    (headerWord' : other'.headerWord b = other.headerWord b)
    (payload' : other'.payload b = other.payload b) :
    types.Twins slots pairing memory' other' a b := by
  refine h.of_sameShape (.of_payload (congrArg Header.typeId (Memory.header_congr headerWord)) payload)
    (.of_payload (congrArg Header.typeId (Memory.header_congr headerWord')) payload') ?_ ?_ ?_
  · rw [headerWord, headerWord', h.headerWord]
  · intro slot inside
    rw [target?, target?, payload, payload']
    exact h.target slot inside
  · intro i off
    rw [payload, payload']
    exact h.byte i off

end

end Twins

end TypeTable

inductive RootSlot.Alike (pairing : Pairing) : RootSlot → RootSlot → Prop
  | vacant : Alike pairing .vacant .vacant
  | occupied {target target' : Option Ref} (links : pairing.Links target target') :
      Alike pairing (.occupied target) (.occupied target')

namespace RootTable

structure Alike (pairing : Pairing) (table other : RootTable) : Prop where
  free : other.free = table.free
  size : other.slots.size = table.slots.size
  slot : ∀ i : Nat, Option.Rel (RootSlot.Alike pairing) table.slots[i]? other.slots[i]?

namespace Alike

variable {pairing wider : Pairing} {table other : RootTable} {target target' : Option Ref}

theorem empty (pairing : Pairing) : Alike pairing {} {} :=
  ⟨rfl, rfl, fun _ => .none⟩

section

variable (h : Alike pairing table other)

include h

theorem set_slot {slot slot' : RootSlot} (alike : slot.Alike pairing slot') (index : Nat)
    (free : List Nat) :
    Alike pairing { slots := table.slots.setIfInBounds index slot, free }
      { slots := other.slots.setIfInBounds index slot', free } where
  free := rfl
  size := by
    rw [Array.size_setIfInBounds, Array.size_setIfInBounds, h.size]
  slot := by
    intro i
    simp only [Array.getElem?_setIfInBounds, h.size]
    split
    · split
      · exact .some alike
      · exact .none
    · exact h.slot i

theorem push {slot slot' : RootSlot} (alike : slot.Alike pairing slot') (free : List Nat) :
    Alike pairing { slots := table.slots.push slot, free }
      { slots := other.slots.push slot', free } where
  free := rfl
  size := by
    rw [Array.size_push, Array.size_push, h.size]
  slot := by
    intro i
    simp only [Array.getElem?_push, h.size]
    split
    · exact .some alike
    · exact h.slot i

theorem add (links : pairing.Links target target') :
    (other.add target').1 = (table.add target).1 ∧
      Alike pairing (table.add target).2 (other.add target').2 := by
  rw [RootTable.add, RootTable.add, h.free]
  cases table.free with
  | nil => exact ⟨congrArg RootId.mk h.size, h.push (.occupied links) []⟩
  | cons index free => exact ⟨rfl, h.set_slot (.occupied links) index free⟩

theorem isAllocated_eq (id : RootId) : other.isAllocated id = table.isAllocated id := by
  rw [isAllocated, isAllocated]
  have same := h.slot id.index
  revert same
  cases table.slots[id.index]? <;> cases other.slots[id.index]? <;> intro same <;> cases same
  · rfl
  · rename_i same
    cases same <;> rfl

theorem objects_left {object : Ref} (member : object ∈ table.objects) :
    ∃ b, pairing.Pairs object b ∧ b ∈ other.objects := by
  rw [mem_objects, Array.mem_toList_iff] at member
  obtain ⟨i, found⟩ := Array.mem_iff_getElem?.mp member
  have same := h.slot i
  rw [found] at same
  cases found' : other.slots[i]? with
  | none =>
    rw [found'] at same
    cases same
  | some slot =>
    rw [found'] at same
    cases same with
    | some alike =>
      cases alike with
      | occupied links =>
        cases links with
        | some pair =>
          have member' := Array.mem_toList_iff.mpr (Array.mem_of_getElem? found')
          exact ⟨_, pair, mem_objects.mpr member'⟩

theorem restrict (kept : ∀ a b, a ∈ table.objects → pairing.Pairs a b → wider.Pairs a b) :
    Alike wider table other where
  free := h.free
  size := h.size
  slot := by
    intro i
    have same := h.slot i
    revert same
    cases found : table.slots[i]? <;> cases other.slots[i]? <;> intro same <;> cases same
    · exact .none
    · rename_i same
      refine .some ?_
      cases same with
      | vacant => exact .vacant
      | occupied links =>
        refine .occupied ?_
        cases links with
        | none => exact .none
        | some pair =>
          have member := mem_objects.mpr (Array.mem_toList_iff.mpr (Array.mem_of_getElem? found))
          exact .some (kept _ _ member pair)

theorem flip : Alike pairing.flip other table where
  free := h.free.symm
  size := h.size.symm
  slot := by
    intro i
    have same := h.slot i
    revert same
    cases table.slots[i]? <;> cases other.slots[i]? <;> intro same <;> cases same
    · exact .none
    · rename_i same
      refine .some ?_
      cases same with
      | vacant => exact .vacant
      | occupied links => exact .occupied links.flip

end

end Alike

end RootTable

structure FinalizerEntry.Alike (pairing : Pairing) (entry other : FinalizerEntry) : Prop where
  object : pairing.Pairs entry.object other.object
  queue : other.queue = entry.queue
  light : other.light = entry.light

theorem FinalizerEntry.Alike.flip {pairing : Pairing} {entry other : FinalizerEntry}
    (h : entry.Alike pairing other) : other.Alike pairing.flip entry :=
  ⟨Pairing.pairs_flip.mpr h.object, h.queue.symm, h.light.symm⟩

theorem FinalizerEntry.Alike.mono {pairing wider : Pairing} {entry other : FinalizerEntry}
    (sub : pairing ⊆ wider) (h : entry.Alike pairing other) : entry.Alike wider other :=
  { h with object := sub h.object }

namespace Heap

variable {σ : Type} {slots : SlotMap} {heap other after after' : Heap σ} {a b c d : Ref}

def pairing (heap other : Heap σ) : Pairing :=
  heap.objects.toList.zip other.objects.toList ++ heap.external.toList.zip other.external.toList

/-- Two heaps that nothing but the addresses of their objects tells from each other. What the raw
    memory knows, what the journal says and what is left at dead addresses is of no account. -/
structure Alike (slots : SlotMap) (heap other : Heap σ) : Prop where
  growth : other.growth = heap.growth
  types : other.types = heap.types
  heapSize : other.heapSize = heap.heapSize
  previousHeapSize : other.previousHeapSize = heap.previousHeapSize
  collecting : other.collecting = heap.collecting
  stats : other.stats = heap.stats
  objects : other.objects.size = heap.objects.size
  external : other.external.size = heap.external.size
  distinct : heap.live.Nodup
  distinct' : other.live.Nodup
  twins : ∀ a b, (heap.pairing other).Pairs a b →
    heap.types.Twins slots (heap.pairing other) heap.memory other.memory a b
  finalizers : List.Forall₂ (FinalizerEntry.Alike (heap.pairing other)) heap.finalizers.toList
    other.finalizers.toList
  weakHolders : List.Forall₂ (heap.pairing other).Pairs heap.weakHolders.toList
    other.weakHolders.toList
  roots : heap.roots.Alike (heap.pairing other) other.roots

theorem pairing_flip (heap other : Heap σ) : (heap.pairing other).flip = other.pairing heap := by
  rw [pairing, pairing, Pairing.flip, List.map_append, List.zip_swap, List.zip_swap]

theorem mem_live_of_pairs (pair : (heap.pairing other).Pairs a b) :
    a ∈ heap.live ∧ b ∈ other.live := by
  rcases List.mem_append.mp pair with pair | pair
  · obtain ⟨left, right⟩ := List.of_mem_zip pair
    exact ⟨mem_live_of_objects left, mem_live_of_objects right⟩
  · obtain ⟨left, right⟩ := List.of_mem_zip pair
    exact ⟨mem_live_of_external left, mem_live_of_external right⟩

namespace Alike

section

variable (h : heap.Alike slots other)

include h

theorem length_objects : other.objects.toList.length = heap.objects.toList.length :=
  h.objects

theorem length_external : other.external.toList.length = heap.external.toList.length :=
  h.external

theorem pairing_eq : heap.pairing other = heap.live.zip other.live :=
  (List.zip_append h.length_objects.symm).symm

theorem exists_counterpart (member : a ∈ heap.live) : ∃ b, (heap.pairing other).Pairs a b := by
  rw [h.pairing_eq]
  refine Pairing.exists_of_mem ?_ member
  rw [Heap.live, Heap.live, List.length_append, List.length_append, h.length_objects,
    h.length_external]

theorem eq_iff_eq (pair : (heap.pairing other).Pairs a b) (pair' : (heap.pairing other).Pairs c d) :
    a = c ↔ b = d := by
  rw [h.pairing_eq] at pair pair'
  exact Pairing.eq_iff_eq h.distinct h.distinct' pair pair'

theorem flip : other.Alike slots heap where
  growth := h.growth.symm
  types := h.types.symm
  heapSize := h.heapSize.symm
  previousHeapSize := h.previousHeapSize.symm
  collecting := h.collecting.symm
  stats := h.stats.symm
  objects := h.objects.symm
  external := h.external.symm
  distinct := h.distinct'
  distinct' := h.distinct
  twins := by
    intro b a pair
    rw [← pairing_flip] at pair ⊢
    rw [h.types]
    exact (h.twins a b (Pairing.pairs_flip.mp pair)).flip
  finalizers := by
    rw [← pairing_flip]
    exact (h.finalizers.imp fun _ _ => FinalizerEntry.Alike.flip).flip
  weakHolders := by
    rw [← pairing_flip]
    exact (h.weakHolders.imp fun _ _ => Pairing.pairs_flip.mpr).flip
  roots := by
    rw [← pairing_flip]
    exact h.roots.flip

end

end Alike

end Heap

end Reclaim
