import Reclaim.Object.TypeTable
import Reclaim.Proofs.Object.HeaderBits
import Reclaim.Proofs.Object.PayloadWords

namespace Reclaim

/-- Whether a computation comes to a result, and to which kind of one, can be found out by carrying
    it out. -/
instance decidableExistsOk {ε α : Type} (result : Except ε α) :
    Decidable (∃ value, result = .ok value) :=
  match result with
  | .ok value => .isTrue ⟨value, rfl⟩
  | .error _ => .isFalse nofun

instance decidableExistsOkAnd {ε α : Type} (result : Except ε α) (p : α → Prop)
    [DecidablePred p] : Decidable (∃ value, result = .ok value ∧ p value) :=
  match result with
  | .ok value => decidable_of_iff (p value) (by simp)
  | .error _ => .isFalse nofun

namespace Word

theorem add_eq_ok {a b c : Word} : add a b = .ok c ↔ a.toNat + b.toNat = c.toNat := by
  rw [← add?_eq_some, add]
  cases add? a b <;> simp

theorem mul_eq_ok {a b c : Word} : mul a b = .ok c ↔ a.toNat * b.toNat = c.toNat := by
  rw [← mul?_eq_some, mul]
  cases mul? a b <;> simp

theorem toNat_and_not_seven (w : Word) : (w &&& ~~~(7 : Word)).toNat = w.toNat / 8 * 8 := by
  have shifts : w &&& ~~~(7 : Word) = (w >>> 3) <<< 3 := by
    apply UInt64.eq_of_toBitVec_eq
    apply BitVec.eq_of_getLsbD_eq
    intro i hi
    have mask : ∀ i < 64, (~~~(7 : Word)).toBitVec.getLsbD i = decide (3 ≤ i) := by decide
    rw [UInt64.toBitVec_and, BitVec.getLsbD_and, mask i hi]
    by_cases low : i < 3
    · simp [low, show ¬ 3 ≤ i by omega]
    · simp [low, hi, show 3 ≤ i by omega]
  have bound := w.toNat_lt
  rw [shifts, UInt64.toNat_shiftLeft, UInt64.toNat_shiftRight]
  simp only [UInt64.toNat_ofNat, Nat.reducePow, Nat.reduceMod, Nat.shiftLeft_eq,
    Nat.shiftRight_eq_div_pow] at bound ⊢
  omega

theorem alignUp?_eq_some {n c : Word} :
    alignUp? n = some c → n.toNat ≤ c.toNat ∧ c.toNat < n.toNat + 8 ∧ c.toNat % 8 = 0 := by
  intro h
  obtain ⟨s, sum, rfl⟩ := Option.map_eq_some_iff.mp h
  rw [add?_eq_some] at sum
  simp only [UInt64.toNat_ofNat, Nat.reducePow, Nat.reduceMod] at sum
  rw [toNat_and_not_seven]
  omega

end Word

theorem le_of_allocationCost? {size cost : Word} (h : allocationCost? size = some cost) :
    size.toNat + 8 ≤ cost.toNat := by
  simp only [allocationCost?, Option.bind_eq_bind, Option.bind_eq_some_iff] at h
  obtain ⟨total, sum, aligned⟩ := h
  have header : headerSize.toNat = 8 := rfl
  rw [Word.add?_eq_some] at sum
  have bound := (Word.alignUp?_eq_some aligned).1
  omega

namespace Layout

theorem payloadSize_congr {layout : Layout} {payload other : Payload}
    (same : layout.length? other = layout.length? payload) :
    layout.payloadSize other = layout.payloadSize payload := by
  cases layout with
  | fixed size => rfl
  | varsize base item lengthOffset =>
    simp only [length?, Option.some.injEq] at same
    simp only [payloadSize, same]

theorem payloadSize_of_payloadSize? {layout : Layout} {payload : Payload} {length size : Word}
    (known : layout.payloadSize? length = some size)
    (recorded : ∀ n, layout.length? payload = some n → n = length) :
    layout.payloadSize payload = .ok size := by
  cases layout with
  | fixed fixedSize =>
    simp only [payloadSize?, Option.some.injEq] at known
    rw [payloadSize, known]
  | varsize base item lengthOffset =>
    have same := recorded _ rfl
    simp only [payloadSize?, Option.bind_eq_bind, Option.bind_eq_some_iff] at known
    obtain ⟨items, product, sum⟩ := known
    rw [Word.mul?_eq_some] at product
    rw [Word.add?_eq_some] at sum
    have product' : Word.mul length item = .ok items := by
      rw [Word.mul_eq_ok, Nat.mul_comm]
      exact product
    have sum' : Word.add base items = .ok size := by
      rw [Word.add_eq_ok, Nat.add_comm]
      exact sum
    simp only [payloadSize, same, product', bind, Except.bind, sum']

end Layout

namespace Descriptor

theorem checkDisjoint_ok {a b : Word} {fault : Fault}
    (h : checkDisjoint a b fault = .ok ()) : Payload.Apart a.toNat b.toNat := by
  have size : Word.size.toNat = 8 := rfl
  simp only [checkDisjoint, bind, Except.bind] at h
  cases left : Word.add a Word.size with
  | error e => simp [left] at h
  | ok afterA =>
    simp only [left] at h
    rw [Word.add_eq_ok] at left
    split at h
    · rename_i inside
      have := UInt64.le_iff_toNat_le.mp inside
      left
      omega
    · cases right : Word.add b Word.size with
      | error e => simp [right] at h
      | ok afterB =>
        simp only [right] at h
        rw [Word.add_eq_ok] at right
        split at h
        · rename_i inside
          have := UInt64.le_iff_toNat_le.mp inside
          right
          omega
        · cases h

theorem weak_apart_of_validate {descriptor : Descriptor} {weak base item lengthOffset : Word}
    (valid : descriptor.validate = .ok ()) (slot : descriptor.weakOffset = some weak)
    (layout : descriptor.layout = .varsize base item lengthOffset) :
    Payload.Apart weak.toNat lengthOffset.toNat := by
  simp only [validate, layout, slot, bind, Except.bind] at valid
  split at valid
  · cases valid
  · split at valid
    · cases valid
    · exact checkDisjoint_ok valid

end Descriptor

def Ref.lowest : Ref :=
  ⟨16, by decide⟩

def Ref.placed (address : Word) : Ref :=
  (ofWord? address).getD .lowest

namespace TypeTable

def Valid (types : TypeTable) : Prop :=
  ∀ typeId descriptor, types.get? typeId = some descriptor → descriptor.validate = .ok ()

def cost (types : TypeTable) (memory : Memory) (object : Ref) : Word :=
  match types.allocationCost memory object with
  | .ok cost => cost
  | .error _ => 0

def weakSlot? (types : TypeTable) (memory : Memory) (object : Ref) : Option Word :=
  types.get? (memory.header object).typeId >>= Descriptor.weakOffset

def weakTarget? (types : TypeTable) (memory : Memory) (object : Ref) : Option Ref :=
  types.weakSlot? memory object >>= memory.readRef object

structure SameShape (types : TypeTable) (before after : Memory) (object : Ref) : Prop where
  typeId : (after.header object).typeId = (before.header object).typeId
  length : ∀ descriptor, types.get? (before.header object).typeId = some descriptor →
    descriptor.layout.length? (after.payload object) =
      descriptor.layout.length? (before.payload object)

variable {types : TypeTable} {before after memory : Memory} {object : Ref}

theorem SameShape.refl : types.SameShape memory memory object :=
  ⟨rfl, fun _ _ => rfl⟩

theorem SameShape.trans {middle : Memory} (first : types.SameShape before middle object)
    (second : types.SameShape middle after object) : types.SameShape before after object := by
  refine ⟨second.typeId.trans first.typeId, ?_⟩
  intro descriptor found
  have found' : types.get? (middle.header object).typeId = some descriptor := by
    rw [first.typeId]
    exact found
  exact (second.length descriptor found').trans (first.length descriptor found)

theorem SameShape.of_payload (typeId : (after.header object).typeId = (before.header object).typeId)
    (payload : after.payload object = before.payload object) :
    types.SameShape before after object :=
  ⟨typeId, fun _ _ => by rw [payload]⟩

theorem allocationCost_eq (types : TypeTable) (memory : Memory) (object : Ref) :
    types.allocationCost memory object =
      match types.get? (memory.header object).typeId with
      | none => .error (.unregisteredType (memory.header object).typeId)
      | some descriptor =>
        match descriptor.layout.payloadSize (memory.payload object) with
        | .error fault => .error fault
        | .ok size =>
          match allocationCost? size with
          | some cost => .ok cost
          | none => .error (.unrepresentableSize object) := by
  simp only [allocationCost, view, expect, bind, Except.bind]
  cases types.get? (memory.header object).typeId with
  | none => rfl
  | some descriptor =>
    cases size : descriptor.layout.payloadSize (memory.payload object) with
    | error fault => simp only [size]
    | ok size' =>
      cases total : allocationCost? size' <;> simp only [size, total, pure, Except.pure]

theorem allocationCost_congr (same : types.SameShape before after object) :
    types.allocationCost after object = types.allocationCost before object := by
  rw [allocationCost_eq, allocationCost_eq, same.typeId]
  cases found : types.get? (before.header object).typeId with
  | none => rfl
  | some descriptor =>
    simp only [Layout.payloadSize_congr (same.length descriptor found)]

theorem cost_congr (same : types.SameShape before after object) :
    types.cost after object = types.cost before object := by
  rw [cost, cost, allocationCost_congr same]

theorem cost_of_ok {cost : Word} (h : types.allocationCost memory object = .ok cost) :
    types.cost memory object = cost := by
  rw [TypeTable.cost, h]

theorem allocationCost_pos {cost : Word}
    (h : types.allocationCost memory object = .ok cost) : 8 ≤ cost.toNat := by
  rw [allocationCost_eq] at h
  split at h
  · cases h
  · split at h
    · cases h
    · split at h
      · rename_i total
        cases h
        have bound := le_of_allocationCost? total
        omega
      · cases h

theorem weakSlot?_congr (typeId : (after.header object).typeId = (before.header object).typeId) :
    types.weakSlot? after object = types.weakSlot? before object := by
  rw [weakSlot?, weakSlot?, typeId]

theorem children_eq_trace (types : TypeTable) (memory : Memory) (object : Ref) :
    types.children memory object =
      match types.get? (memory.header object).typeId with
      | none => .error (.unregisteredType (memory.header object).typeId)
      | some descriptor =>
        match descriptor.layout.payloadSize (memory.payload object) with
        | .error fault => .error fault
        | .ok size =>
          descriptor.trace
            { object, typeId := (memory.header object).typeId, payloadLength := size,
              payload := memory.payload object } := by
  simp only [children, view, expect, bind, Except.bind]
  cases found : types.get? (memory.header object).typeId with
  | none => rfl
  | some descriptor =>
    cases size : descriptor.layout.payloadSize (memory.payload object) with
    | error fault => simp only [size]
    | ok size' => simp only [size, pure, Except.pure, found]

theorem children_congr (typeId : (after.header object).typeId = (before.header object).typeId)
    (payload : after.payload object = before.payload object) :
    types.children after object = types.children before object := by
  simp only [children, view, typeId, payload]

theorem weakTarget?_congr (typeId : (after.header object).typeId = (before.header object).typeId)
    (payload : after.payload object = before.payload object) :
    types.weakTarget? after object = types.weakTarget? before object := by
  have read : after.readRef object = before.readRef object := by
    funext offset
    simp only [Memory.readRef, Memory.readWord, payload]
  rw [weakTarget?, weakTarget?, weakSlot?_congr typeId, read]

theorem SameShape.writeWord_weak (valid : types.Valid) {slot : Word} (word : Word)
    (found : types.weakSlot? memory object = some slot) :
    types.SameShape memory (memory.writeWord object slot word) object := by
  refine ⟨by simp [Memory.header], ?_⟩
  intro descriptor known
  rw [Memory.payload_writeWord, if_pos rfl]
  have weak : descriptor.weakOffset = some slot := by
    simpa [weakSlot?, known] using found
  cases layout : descriptor.layout with
  | fixed size => rfl
  | varsize base item lengthOffset =>
    simp only [Layout.length?, Option.some.injEq]
    apply Payload.readWord_writeWord_of_apart
    exact Descriptor.weak_apart_of_validate (valid _ _ known) weak layout

theorem eq_of_get?_singleton {descriptor found : Descriptor} {typeId : TypeId}
    (known : get? ⟨#[descriptor]⟩ typeId = some found) : found = descriptor :=
  Array.mem_singleton.mp (Array.mem_of_getElem? known)

def nodes : TypeTable :=
  ⟨#[{ name := "node", layout := .fixed 8, trace := .slots [0] }]⟩

theorem valid_nodes : nodes.Valid := by
  intro typeId descriptor known
  rw [eq_of_get?_singleton known]
  rfl

theorem weakSlot?_nodes (memory : Memory) (object : Ref) :
    nodes.weakSlot? memory object = none := by
  rw [weakSlot?, Option.bind_eq_bind, Option.bind_eq_none_iff]
  intro descriptor known
  rw [eq_of_get?_singleton known]

def rows : TypeTable :=
  ⟨#[{ name := "row", layout := .varsize 8 8 0, trace := .slots [] }]⟩

theorem valid_rows : rows.Valid := by
  intro typeId descriptor known
  rw [eq_of_get?_singleton known]
  rfl

end TypeTable

end Reclaim
