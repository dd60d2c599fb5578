import Reclaim.Proofs.Object.Types

namespace Reclaim

theorem Word.add_size_eq_ok {w : Word} (small : w.toNat + 8 < UInt64.size) :
    add w size = .ok (w + 8) ∧ (w + 8).toNat = w.toNat + 8 := by
  have total : (w + 8).toNat = w.toNat + 8 := by
    rw [UInt64.toNat_add]
    exact Nat.mod_eq_of_lt small
  exact ⟨add_eq_ok.mpr total.symm, total⟩

theorem Payload.apart_iff {a b : Nat} : Apart a b ↔ ∀ i < 8, ∀ j < 8, a + i ≠ b + j := by
  constructor
  · rintro (before | behind) i hi j hj <;> omega
  · intro disjoint
    rcases Nat.le_total a b with le | le
    · have first := disjoint (b - a)
      exact .inl (Nat.le_of_not_lt fun near => first (by omega) 0 (by decide) (by omega))
    · have second := disjoint 0 (by decide) (a - b)
      exact .inr (Nat.le_of_not_lt fun near => second (by omega) (by omega))

namespace Descriptor

/-- The length word and the weak slot lie in the part that every object has, and share no byte. -/
structure Consistent (descriptor : Descriptor) : Prop where
  length_inside : ∀ base item lengthOffset, descriptor.layout = .varsize base item lengthOffset →
    lengthOffset.toNat + 8 ≤ base.toNat
  weak_inside : ∀ weak, descriptor.weakOffset = some weak →
    weak.toNat + 8 ≤ descriptor.layout.fixedPart.toNat
  disjoint : ∀ base item lengthOffset weak, descriptor.layout = .varsize base item lengthOffset →
    descriptor.weakOffset = some weak → ∀ i < 8, ∀ j < 8, weak.toNat + i ≠ lengthOffset.toNat + j

variable {descriptor : Descriptor} {base item lengthOffset : Word}

theorem checkWord_eq_ok {offset room : Word} {fault : Fault} :
    checkWord offset room fault = .ok () ↔ offset.toNat + 8 ≤ room.toNat := by
  constructor
  · intro h
    have size : Word.size.toNat = 8 := rfl
    simp only [checkWord, bind, Except.bind] at h
    cases sum : Word.add offset Word.size with
    | error e => simp [sum] at h
    | ok last =>
      simp only [sum] at h
      rw [Word.add_eq_ok] at sum
      split at h
      · rename_i inside
        have := UInt64.le_iff_toNat_le.mp inside
        omega
      · cases h
  · intro inside
    obtain ⟨sum, last⟩ := Word.add_size_eq_ok (Nat.lt_of_le_of_lt inside room.toNat_lt)
    simp only [checkWord, bind, Except.bind, sum]
    exact if_pos (UInt64.le_iff_toNat_le.mpr (last ▸ inside))

theorem checkDisjoint_eq_ok {a b : Word} {fault : Fault} (first : a.toNat + 8 < UInt64.size)
    (second : b.toNat + 8 < UInt64.size) (apart : Payload.Apart a.toNat b.toNat) :
    checkDisjoint a b fault = .ok () := by
  obtain ⟨left, afterA⟩ := Word.add_size_eq_ok first
  obtain ⟨right, afterB⟩ := Word.add_size_eq_ok second
  simp only [checkDisjoint, bind, Except.bind, left, right, UInt64.le_iff_toNat_le, afterA, afterB]
  rcases apart with before | behind
  · rw [if_pos before]
  · rw [if_pos behind]
    split <;> rfl

theorem length_inside_of_validate (valid : descriptor.validate = .ok ())
    (layout : descriptor.layout = .varsize base item lengthOffset) :
    lengthOffset.toNat + 8 ≤ base.toNat := by
  simp only [validate, layout, bind, Except.bind] at valid
  split at valid
  · cases valid
  · rename_i checked
    exact checkWord_eq_ok.mp checked

theorem weak_inside_of_validate {weak : Word} (valid : descriptor.validate = .ok ())
    (slot : descriptor.weakOffset = some weak) :
    weak.toNat + 8 ≤ descriptor.layout.fixedPart.toNat := by
  simp only [validate, slot, bind, Except.bind] at valid
  cases checked : checkWord weak descriptor.layout.fixedPart
      (.weakSlotOutside descriptor.name weak descriptor.layout.fixedPart) with
  | ok _ => exact checkWord_eq_ok.mp checked
  | error fault =>
    simp only [checked] at valid
    split at valid
    · cases valid
    · split at valid <;> cases valid

/-- The checks in words accept the descriptors that are consistent as integers. -/
theorem validate_eq_ok : descriptor.validate = .ok () ↔ descriptor.Consistent := by
  constructor
  · intro valid
    exact {
      length_inside := fun _ _ _ => length_inside_of_validate valid
      weak_inside := fun _ => weak_inside_of_validate valid
      disjoint := fun _ _ _ _ layout slot =>
        Payload.apart_iff.mp (weak_apart_of_validate valid slot layout) }
  · intro consistent
    obtain ⟨name, layout, weakOffset, trace⟩ := descriptor
    cases layout with
    | fixed size =>
      cases weakOffset with
      | none => rfl
      | some weak =>
        have inside : checkWord weak size (.weakSlotOutside name weak size) = .ok () :=
          checkWord_eq_ok.mpr (consistent.weak_inside weak rfl)
        simp only [validate, Layout.fixedPart, bind, Except.bind, pure, Except.pure, inside]
    | varsize base item lengthOffset =>
      have length_inside := consistent.length_inside base item lengthOffset rfl
      have first :
          checkWord lengthOffset base (.lengthWordOutside name lengthOffset base) = .ok () :=
        checkWord_eq_ok.mpr length_inside
      cases weakOffset with
      | none => simp only [validate, Layout.fixedPart, bind, Except.bind, pure, Except.pure, first]
      | some weak =>
        have weak_inside := consistent.weak_inside weak rfl
        have second : checkWord weak base (.weakSlotOutside name weak base) = .ok () :=
          checkWord_eq_ok.mpr weak_inside
        have apart :=
          Payload.apart_iff.mpr (consistent.disjoint base item lengthOffset weak rfl rfl)
        simp only [validate, Layout.fixedPart, bind, Except.bind, first, second]
        exact checkDisjoint_eq_ok (Nat.lt_of_le_of_lt weak_inside base.toNat_lt)
          (Nat.lt_of_le_of_lt length_inside base.toNat_lt) apart

end Descriptor

abbrev Registrations := List (Descriptor × Except Fault TypeId)

namespace Registrations

def accepted (calls : Registrations) : List Descriptor :=
  (calls.filter fun call => call.2.isOk).map Prod.fst

variable {calls : Registrations} {descriptor : Descriptor}

theorem accepted_snoc_ok (typeId : TypeId) :
    accepted (calls ++ [(descriptor, .ok typeId)]) = calls.accepted ++ [descriptor] := by
  rw [accepted, accepted, List.filter_append, List.map_append]
  rfl

theorem accepted_snoc_error (fault : Fault) :
    accepted (calls ++ [(descriptor, .error fault)]) = calls.accepted := by
  rw [accepted, accepted, List.filter_append, List.map_append]
  exact List.append_nil _

end Registrations

namespace TypeTable

variable {table after : TypeTable} {descriptor : Descriptor} {calls : Registrations}

def answer (table : TypeTable) (descriptor : Descriptor) : Except Fault TypeId × TypeTable :=
  match table.register descriptor with
  | .ok (typeId, after) => (.ok typeId, after)
  | .error fault => (.error fault, table)

def next (state : Registrations × TypeTable) (descriptor : Descriptor) :
    Registrations × TypeTable :=
  (state.1 ++ [(descriptor, (state.2.answer descriptor).1)], (state.2.answer descriptor).2)

def registered (descriptors : List Descriptor) : Registrations × TypeTable :=
  descriptors.foldl next ([], {})

structure Lists (table : TypeTable) (calls : Registrations) : Prop where
  types : table.types.toList = calls.accepted
  size : table.size = calls.accepted.length
  size_le : table.size ≤ 0x10000
  get? : ∀ typeId, table.get? typeId = calls.accepted[typeId.index.toNat]?
  named : ∀ descriptor typeId, (descriptor, .ok typeId) ∈ calls →
    table.get? typeId = some descriptor

structure Settles (table : TypeTable) (descriptor : Descriptor) : Prop where
  accepts : (∃ typeId after, table.answer descriptor = (.ok typeId, after)) ↔
    table.size ≤ 0xffff ∧ descriptor.Consistent
  accepted : ∀ typeId after, table.answer descriptor = (.ok typeId, after) →
    typeId.index.toNat = table.size ∧ after.types = table.types.push descriptor
  refused : ∀ fault after, table.answer descriptor = (.error fault, after) → after = table

theorem check_eq_ok :
    table.check descriptor = .ok () ↔ table.size ≤ 0xffff ∧ descriptor.Consistent := by
  rw [check, ← Descriptor.validate_eq_ok]
  cases descriptor.validate with
  | error fault => simp [bind, Except.bind]
  | ok _ =>
    by_cases room : table.size ≤ 0xffff <;> simp [bind, Except.bind, room]

theorem answer_eq (table : TypeTable) (descriptor : Descriptor) :
    table.answer descriptor =
      match table.check descriptor with
      | .ok _ => (.ok ⟨.ofNat table.size⟩, table.push descriptor)
      | .error fault => (.error fault, table) := by
  rw [answer, register]
  cases table.check descriptor <;> rfl

theorem toNat_ofNat_size (room : table.size ≤ 0xffff) :
    (UInt16.ofNat table.size).toNat = table.size :=
  UInt16.toNat_ofNat_of_lt (Nat.lt_succ_of_le room)

theorem settles (table : TypeTable) (descriptor : Descriptor) : table.Settles descriptor := by
  have accepts := @check_eq_ok table descriptor
  constructor <;> rw [answer_eq]
  · rw [← accepts]
    cases table.check descriptor <;> simp
  · cases checked : table.check descriptor with
    | error fault => nofun
    | ok _ =>
      rintro typeId after ⟨⟩
      exact ⟨toNat_ofNat_size (accepts.mp checked).1, rfl⟩
  · cases table.check descriptor with
    | error fault =>
      rintro _ after ⟨⟩
      rfl
    | ok _ => nofun

theorem lists_of_types (types : table.types.toList = calls.accepted)
    (size_le : table.size ≤ 0x10000)
    (named : ∀ descriptor typeId, (descriptor, .ok typeId) ∈ calls →
      table.get? typeId = some descriptor) : table.Lists calls where
  types := types
  size := by
    rw [← types, Array.length_toList]
    rfl
  size_le := size_le
  get? := by
    intro typeId
    rw [← types, Array.getElem?_toList]
    rfl
  named := named

theorem lists_empty : Lists {} [] :=
  lists_of_types rfl (Nat.zero_le _) nofun

theorem get?_push_of_some {typeId : TypeId} {known : Descriptor}
    (pushed : after.types = table.types.push descriptor) (found : table.get? typeId = some known) :
    after.get? typeId = some known := by
  obtain ⟨inside, _⟩ := Array.getElem?_eq_some_iff.mp found
  rw [TypeTable.get?, pushed, Array.getElem?_push_lt inside, ← Array.getElem?_eq_getElem inside]
  exact found

theorem Lists.answered (lists : table.Lists calls) (descriptor : Descriptor) :
    (table.answer descriptor).2.Lists (calls ++ [(descriptor, (table.answer descriptor).1)]) := by
  have settles := table.settles descriptor
  rcases reply : table.answer descriptor with ⟨fault | typeId, after⟩
  · have same := settles.refused fault after reply
    subst same
    refine lists_of_types ?_ lists.size_le ?_
    · rw [Registrations.accepted_snoc_error]
      exact lists.types
    · intro known typeId member
      refine lists.named known typeId ?_
      simpa using member
  · have room := (settles.accepts.mp ⟨typeId, after, reply⟩).1
    obtain ⟨place, pushed⟩ := settles.accepted typeId after reply
    refine lists_of_types ?_ ?_ ?_
    · rw [Registrations.accepted_snoc_ok, pushed, Array.toList_push, lists.types]
    · rw [TypeTable.size, pushed, Array.size_push]
      exact Nat.succ_le_succ room
    · intro known given member
      rcases List.mem_append.mp member with earlier | last
      · exact get?_push_of_some pushed (lists.named known given earlier)
      · cases List.mem_singleton.mp last
        rw [TypeTable.get?, pushed, place]
        exact Array.getElem?_push_size

theorem Lists.registered {state : Registrations × TypeTable} (lists : state.2.Lists state.1)
    (descriptors : List Descriptor) :
    (descriptors.foldl next state).2.Lists (descriptors.foldl next state).1 := by
  induction descriptors generalizing state with
  | nil => exact lists
  | cons descriptor rest continued =>
    rw [List.foldl_cons]
    exact continued (lists.answered descriptor)

/-- After any calls, refused ones included, a type table holds the accepted types under their places
    as ids. It accepts the next descriptor if and only if that is consistent and there is an id
    left, gives it the number of types as its id, and is left as it was otherwise. -/
theorem register_consistent (descriptors : List Descriptor) (descriptor : Descriptor) :
    (registered descriptors).2.Lists (registered descriptors).1 ∧
      (registered descriptors).2.Settles descriptor :=
  ⟨lists_empty.registered descriptors, settles _ descriptor⟩

end TypeTable

end Reclaim
