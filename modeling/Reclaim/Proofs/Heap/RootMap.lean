import Reclaim.Proofs.Heap.Roots

namespace Reclaim

inductive RootCall where
  | add (object : Option Ref)
  | set (id : RootId) (object : Option Ref)
  | get (id : RootId)
  | remove (id : RootId)
  | clear

inductive RootReply where
  | handedOut (id : RootId)
  | found (object : Option Ref)
  | done
  | refused (fault : Fault)

abbrev RootHistory := List (RootCall × RootReply)

namespace RootHistory

def value : RootHistory → RootId → Option (Option Ref)
  | [], _ => none
  | (.add object, .handedOut id) :: earlier, other =>
    if other = id then some object else value earlier other
  | (.set id object, .done) :: earlier, other =>
    if other = id then some object else value earlier other
  | (.remove id, .done) :: earlier, other => if other = id then none else value earlier other
  | (.clear, _) :: _, _ => none
  | _ :: earlier, other => value earlier other

def handedOut : RootHistory → List RootId
  | [] => []
  | (.add _, .handedOut id) :: earlier => id :: handedOut earlier
  | (.clear, _) :: _ => []
  | _ :: earlier => handedOut earlier

def givenBack : RootHistory → List RootId
  | [] => []
  | (.remove id, .done) :: earlier => id :: givenBack earlier
  | (.clear, _) :: _ => []
  | _ :: earlier => givenBack earlier

/-- Of the ids that were given back and are not in use, the one given back last. -/
def lastVacated (history : RootHistory) : Option RootId :=
  history.givenBack.find? fun id => (history.value id).isNone

end RootHistory

namespace RootTable

def settle (table : RootTable) : Except Fault RootTable → RootReply × RootTable
  | .ok after => (.done, after)
  | .error fault => (.refused fault, table)

def answer (table : RootTable) : RootCall → RootReply × RootTable
  | .add object => (.handedOut (table.add object).1, (table.add object).2)
  | .set id object => table.settle (table.set id object)
  | .get id => (.found (table.get id), table)
  | .remove id => table.settle (table.remove id)
  | .clear => (.done, table.clear)

def next (state : RootHistory × RootTable) (call : RootCall) : RootHistory × RootTable :=
  ((call, (state.2.answer call).1) :: state.1, (state.2.answer call).2)

def played (calls : List RootCall) : RootHistory × RootTable :=
  calls.foldl next ([], {})

def AgreesOff (id : RootId) (before after : RootTable) : Prop :=
  ∀ other, other ≠ id →
    after.isAllocated other = before.isAllocated other ∧ after.get other = before.get other

/-- The table holds what its history says, in slots that are either in use or listed as free. -/
structure Represents (table : RootTable) (history : RootHistory) : Prop where
  free_nodup : table.free.Nodup
  mem_free : ∀ index, index ∈ table.free ↔ table.slots[index]? = some .vacant
  lt_size : ∀ id : RootId, id.index < table.slots.size ↔ id ∈ history.handedOut
  isAllocated : ∀ id, table.isAllocated id = (history.value id).isSome
  get : ∀ id, table.get id = (history.value id).join
  objects : table.objects =
    (List.range table.slots.size).filterMap fun index => (history.value ⟨index⟩).join
  handedOut_of_isSome : ∀ id, (history.value id).isSome → id ∈ history.handedOut
  size : table.size = table.objects.length

/-- How a table answers a call, by what its history says of the ids. -/
def AnswersBy (table : RootTable) (history : RootHistory) : RootCall → Prop
  | .add object =>
    ∃ id after, table.answer (.add object) = (.handedOut id, after) ∧
      id = history.lastVacated.getD ⟨table.slots.size⟩ ∧ history.value id = none ∧
      after.isAllocated id = true ∧ after.get id = object ∧ AgreesOff id table after
  | .set id object =>
    if (history.value id).isSome then
      ∃ after, table.answer (.set id object) = (.done, after) ∧
        after.isAllocated id = true ∧ after.get id = object ∧ AgreesOff id table after
    else table.answer (.set id object) = (.refused (.vacantRoot id), table)
  | .get id => table.answer (.get id) = (.found (history.value id).join, table)
  | .remove id =>
    if (history.value id).isSome then
      ∃ after, table.answer (.remove id) = (.done, after) ∧
        after.isAllocated id = false ∧ after.get id = none ∧ AgreesOff id table after
    else table.answer (.remove id) = (.refused (.vacantRoot id), table)
  | .clear =>
    ∃ after, table.answer .clear = (.done, after) ∧ after.slots.size = 0 ∧
      ∀ id, after.isAllocated id = false ∧ after.get id = none

def contents : RootSlot → Option (Option Ref)
  | .occupied object => some object
  | .vacant => none

def value (table : RootTable) (id : RootId) : Option (Option Ref) :=
  table.slots[id.index]?.bind contents

variable {table before after : RootTable} {history : RootHistory} {id other : RootId}
  {object : Option Ref} {slot : RootSlot} {index listed : Nat} {free : List Nat}

theorem isAllocated_eq (table : RootTable) (id : RootId) :
    table.isAllocated id = (table.value id).isSome := by
  unfold isAllocated value
  rcases table.slots[id.index]? with _ | object | _ <;> rfl

theorem get_eq (table : RootTable) (id : RootId) : table.get id = (table.value id).join := by
  unfold get value
  rcases table.slots[id.index]? with _ | object | _ <;> rfl

theorem lt_size_of_isAllocated (allocated : table.isAllocated id = true) :
    id.index < table.slots.size := by
  by_contra outside
  rw [isAllocated, Array.getElem?_eq_none (Nat.not_lt.mp outside)] at allocated
  cases allocated

theorem index_ne (different : other ≠ id) : other.index ≠ id.index :=
  fun same => different (congrArg RootId.mk same)

theorem value_overwritten (inside : id.index < table.slots.size) (slot : RootSlot)
    (free : List Nat) (other : RootId) :
    value { slots := table.slots.setIfInBounds id.index slot, free } other =
      if other = id then contents slot else table.value other := by
  by_cases same : other = id
  · subst same
    rw [if_pos rfl, value, Array.getElem?_setIfInBounds_self_of_lt inside]
    rfl
  · rw [if_neg same, value, Array.getElem?_setIfInBounds_ne (index_ne same).symm]
    rfl

theorem value_pushed (table : RootTable) (object : Option Ref) (other : RootId) :
    value { table with slots := table.slots.push (.occupied object) } other =
      if other = ⟨table.slots.size⟩ then some object else table.value other := by
  by_cases same : other = ⟨table.slots.size⟩
  · subst same
    rw [if_pos rfl, value, Array.getElem?_push_size]
    rfl
  · rw [if_neg same, value, Array.getElem?_push, if_neg (index_ne same)]
    rfl

theorem vacant_overwritten (inside : index < table.slots.size) (slot : RootSlot) :
    (table.slots.setIfInBounds index slot)[listed]? = some .vacant ↔
      if listed = index then slot = .vacant else table.slots[listed]? = some .vacant := by
  by_cases same : listed = index
  · subst same
    rw [if_pos rfl, Array.getElem?_setIfInBounds_self_of_lt inside, Option.some_inj]
  · rw [if_neg same, Array.getElem?_setIfInBounds_ne (Ne.symm same)]

theorem objects_eq (table : RootTable) :
    table.objects =
      (List.range table.slots.size).filterMap fun index => (table.value ⟨index⟩).join := by
  have listed : table.slots.toList.map some =
      (List.range table.slots.size).map fun index => table.slots[index]? := by
    apply List.ext_getElem
    · simp
    · intro index inside _
      simp at inside
      simp [inside]
  calc table.objects
      = (table.slots.toList.map some).filterMap fun slot? => slot?.bind object? := by
        rw [objects, List.filterMap_map]
        rfl
    _ = (List.range table.slots.size).filterMap fun index => (table.value ⟨index⟩).join := by
        rw [listed, List.filterMap_map]
        apply List.filterMap_congr
        intro index _
        rw [Function.comp_apply, ← get_eq, get]
        rcases table.slots[index]? with _ | object | _ <;> rfl

theorem add_of_free (front : table.free = index :: free) (object : Option Ref) :
    table.add object =
      (⟨index⟩, { slots := table.slots.setIfInBounds index (.occupied object), free }) := by
  rw [add, front]

theorem add_of_full (full : table.free = []) (object : Option Ref) :
    table.add object =
      (⟨table.slots.size⟩, { table with slots := table.slots.push (.occupied object) }) := by
  rw [add, full]

theorem find?_congr {ids : List RootId} {chosen wanted : RootId → Bool}
    (agree : ∀ id ∈ ids, chosen id = wanted id) : ids.find? chosen = ids.find? wanted := by
  rw [← List.head?_filter, ← List.head?_filter, List.filter_congr agree]

structure Follows (table : RootTable) (history : RootHistory) : Prop where
  free_nodup : table.free.Nodup
  mem_free : ∀ index, index ∈ table.free ↔ table.slots[index]? = some .vacant
  lt_size : ∀ id : RootId, id.index < table.slots.size ↔ id ∈ history.handedOut
  value : ∀ id, table.value id = history.value id
  /-- The free list is in the order in which its slots were given back. That it is so for the ids of
      every kind is what a slot taken off its front keeps. -/
  free_order : ∀ chosen : RootId → Bool,
    (history.givenBack.find? fun id => (history.value id).isNone && chosen id) =
      (table.free.map RootId.mk).find? chosen

theorem follows_empty : Follows {} [] where
  free_nodup := .nil
  mem_free := by simp
  lt_size := by simp [RootHistory.handedOut]
  value _ := rfl
  free_order _ := rfl

theorem Follows.lastVacated (follows : table.Follows history) :
    history.lastVacated = table.free.head?.map RootId.mk := by
  have order := follows.free_order fun _ => true
  simp only [Bool.and_true] at order
  rw [RootHistory.lastVacated, order]
  cases table.free <;> rfl

theorem Follows.free_lt (follows : table.Follows history) (member : index ∈ table.free) :
    index < table.slots.size :=
  (Array.getElem?_eq_some_iff.mp ((follows.mem_free index).mp member)).1

theorem find_added (follows : table.Follows history) (object : Option Ref) (id : RootId)
    (chosen : RootId → Bool) :
    let added : RootHistory := (.add object, .handedOut id) :: history
    (added.givenBack.find? fun other => (added.value other).isNone && chosen other) =
      (table.free.map RootId.mk).find? fun other => decide (other ≠ id) && chosen other := by
  intro added
  rw [← follows.free_order]
  apply find?_congr
  intro other _
  show ((if other = id then some object else history.value other).isNone && chosen other) = _
  by_cases same : other = id <;> simp [same]

theorem Follows.reused (follows : table.Follows history) (front : table.free = index :: free)
    (object : Option Ref) :
    Follows { slots := table.slots.setIfInBounds index (.occupied object), free }
      ((.add object, .handedOut ⟨index⟩) :: history) := by
  have inside : index < table.slots.size := follows.free_lt (front ▸ List.mem_cons_self)
  obtain ⟨unlisted, once⟩ := List.nodup_cons.mp (front ▸ follows.free_nodup)
  exact {
    free_nodup := once
    mem_free := by
      intro listed
      rw [vacant_overwritten inside]
      have old := follows.mem_free listed
      rw [front, List.mem_cons] at old
      by_cases same : listed = index
      · subst same
        simp [unlisted]
      · simpa [same] using old
    lt_size := by
      intro id
      have old := follows.lt_size id
      rw [RootHistory.handedOut, List.mem_cons, ← old, Array.size_setIfInBounds]
      constructor
      · exact Or.inr
      · rintro (rfl | before)
        · exact inside
        · exact before
    value := by
      intro id
      have place : (⟨index⟩ : RootId).index < table.slots.size := inside
      rw [value_overwritten place, follows.value id]
      rfl
    free_order := by
      intro chosen
      rw [find_added follows, front, List.map_cons, List.find?_cons_of_neg (by simp)]
      apply find?_congr
      intro other member
      obtain ⟨listed, among, rfl⟩ := List.mem_map.mp member
      have different : listed ≠ index := fun same => unlisted (same ▸ among)
      simp [different] }

theorem Follows.extended (follows : table.Follows history) (full : table.free = [])
    (object : Option Ref) :
    Follows { table with slots := table.slots.push (.occupied object) }
      ((.add object, .handedOut ⟨table.slots.size⟩) :: history) where
  free_nodup := follows.free_nodup
  mem_free := by
    intro listed
    have old := follows.mem_free listed
    rw [Array.getElem?_push]
    by_cases new : listed = table.slots.size
    · simp [new, full]
    · rw [if_neg new, old]
  lt_size := by
    intro id
    have last : id.index = table.slots.size ↔ id = ⟨table.slots.size⟩ :=
      ⟨congrArg RootId.mk, congrArg RootId.index⟩
    rw [RootHistory.handedOut, List.mem_cons, ← follows.lt_size, ← last, Array.size_push]
    omega
  value := by
    intro id
    rw [value_pushed, follows.value id]
    rfl
  free_order := by
    intro chosen
    rw [find_added follows, full]
    rfl

theorem Follows.changed (follows : table.Follows history)
    (allocated : table.isAllocated id = true) (object : Option Ref) :
    Follows { table with slots := table.slots.setIfInBounds id.index (.occupied object) }
      ((.set id object, .done) :: history) := by
  have inside := lt_size_of_isAllocated allocated
  have held : (history.value id).isSome = true := by
    rw [← follows.value, ← isAllocated_eq, allocated]
  exact {
    free_nodup := follows.free_nodup
    mem_free := by
      intro listed
      rw [vacant_overwritten inside]
      by_cases same : listed = id.index
      · subst same
        have unlisted : id.index ∉ table.free := by
          intro member
          rw [isAllocated, (follows.mem_free _).mp member] at allocated
          cases allocated
        simp [unlisted]
      · rw [if_neg same, follows.mem_free]
    lt_size := by
      intro other
      rw [Array.size_setIfInBounds, follows.lt_size]
      rfl
    value := by
      intro other
      rw [value_overwritten inside, follows.value other]
      rfl
    free_order := by
      intro chosen
      rw [← follows.free_order]
      apply find?_congr
      intro other _
      show ((if other = id then some object else history.value other).isNone && chosen other) = _
      by_cases same : other = id
      · subst same
        simp [Option.isSome_iff_ne_none.mp held]
      · rw [if_neg same] }

theorem Follows.vacated (follows : table.Follows history)
    (allocated : table.isAllocated id = true) :
    Follows
      { slots := table.slots.setIfInBounds id.index .vacant, free := id.index :: table.free }
      ((.remove id, .done) :: history) := by
  have inside := lt_size_of_isAllocated allocated
  have unlisted : id.index ∉ table.free := by
    intro member
    rw [isAllocated, (follows.mem_free _).mp member] at allocated
    cases allocated
  exact {
    free_nodup := List.nodup_cons.mpr ⟨unlisted, follows.free_nodup⟩
    mem_free := by
      intro listed
      rw [vacant_overwritten inside, List.mem_cons, follows.mem_free]
      by_cases same : listed = id.index <;> simp [same]
    lt_size := by
      intro other
      rw [Array.size_setIfInBounds, follows.lt_size]
      rfl
    value := by
      intro other
      rw [value_overwritten inside, follows.value other]
      rfl
    free_order := by
      intro chosen
      show List.find? _ (id :: history.givenBack) = List.find? chosen (id :: table.free.map RootId.mk)
      have waits : RootHistory.value ((.remove id, .done) :: history) id = none := if_pos rfl
      cases taken : chosen id with
      | true => rw [List.find?_cons_of_pos (by simp [waits, taken]), List.find?_cons_of_pos taken]
      | false =>
        rw [List.find?_cons_of_neg (by simp [taken]), List.find?_cons_of_neg (by simp [taken]),
          ← follows.free_order]
        apply find?_congr
        intro other _
        show ((if other = id then none else history.value other).isNone && chosen other) = _
        by_cases same : other = id
        · simp [same, taken]
        · rw [if_neg same] }

theorem Follows.unseen (follows : table.Follows history) {entry : RootCall × RootReply}
    (value : RootHistory.value (entry :: history) = history.value)
    (handedOut : RootHistory.handedOut (entry :: history) = history.handedOut)
    (givenBack : RootHistory.givenBack (entry :: history) = history.givenBack) :
    table.Follows (entry :: history) where
  free_nodup := follows.free_nodup
  mem_free := follows.mem_free
  lt_size := by rw [handedOut]; exact follows.lt_size
  value := by rw [value]; exact follows.value
  free_order := by rw [value, givenBack]; exact follows.free_order

theorem Follows.answered (follows : table.Follows history) (call : RootCall) :
    Follows (table.answer call).2 ((call, (table.answer call).1) :: history) := by
  cases call with
  | add object =>
    rw [answer]
    cases front : table.free with
    | nil =>
      rw [add_of_full front]
      exact follows.extended front object
    | cons index free =>
      rw [add_of_free front]
      exact follows.reused front object
  | set id object =>
    rw [answer, set]
    by_cases allocated : table.isAllocated id = true
    · rw [if_pos allocated]
      exact follows.changed allocated object
    · rw [if_neg allocated]
      exact follows.unseen rfl rfl rfl
  | get id => exact follows.unseen rfl rfl rfl
  | remove id =>
    rw [answer, remove]
    by_cases allocated : table.isAllocated id = true
    · rw [if_pos allocated]
      exact follows.vacated allocated
    · rw [if_neg allocated]
      exact follows.unseen rfl rfl rfl
  | clear =>
    exact ⟨.nil, follows_empty.mem_free, follows_empty.lt_size, fun _ => rfl, fun _ => rfl⟩

theorem Follows.played {state : RootHistory × RootTable} (follows : state.2.Follows state.1)
    (calls : List RootCall) :
    (calls.foldl next state).2.Follows (calls.foldl next state).1 := by
  induction calls generalizing state with
  | nil => exact follows
  | cons call rest continued =>
    rw [List.foldl_cons]
    exact continued (follows.answered call)

theorem Follows.represents (follows : table.Follows history) : table.Represents history where
  free_nodup := follows.free_nodup
  mem_free := follows.mem_free
  lt_size := follows.lt_size
  isAllocated := by
    intro id
    rw [isAllocated_eq, follows.value]
  get := by
    intro id
    rw [get_eq, follows.value]
  objects := by
    rw [objects_eq]
    apply List.filterMap_congr
    intro index _
    rw [follows.value]
  handedOut_of_isSome := by
    intro id held
    rw [← follows.value, ← isAllocated_eq] at held
    exact (follows.lt_size id).mp (lt_size_of_isAllocated held)
  size := rfl

theorem agreesOff_of_value (same : ∀ other, other ≠ id → after.value other = before.value other) :
    AgreesOff id before after := by
  intro other different
  rw [isAllocated_eq, isAllocated_eq, get_eq, get_eq, same other different]
  exact ⟨rfl, rfl⟩

theorem answers_overwritten (inside : id.index < table.slots.size) (slot : RootSlot)
    (free : List Nat) :
    let after : RootTable := { slots := table.slots.setIfInBounds id.index slot, free }
    after.isAllocated id = (contents slot).isSome ∧ after.get id = (contents slot).join ∧
      AgreesOff id table after := by
  intro after
  have held : ∀ other, after.value other = if other = id then contents slot else table.value other :=
    value_overwritten inside slot free
  rw [isAllocated_eq, get_eq, held, if_pos rfl]
  refine ⟨rfl, rfl, agreesOff_of_value ?_⟩
  intro other different
  rw [held, if_neg different]

theorem Follows.answersBy (follows : table.Follows history) (call : RootCall) :
    table.AnswersBy history call := by
  cases call with
  | add object =>
    rw [AnswersBy, answer, follows.lastVacated]
    cases front : table.free with
    | nil =>
      rw [add_of_full front]
      have unknown : history.value ⟨table.slots.size⟩ = none := by
        rw [← follows.value, RootTable.value, Array.getElem?_size]
        rfl
      have held := value_pushed table object
      refine ⟨_, _, rfl, rfl, unknown, ?_, ?_, agreesOff_of_value ?_⟩
      · rw [isAllocated_eq, held, if_pos rfl, Option.isSome_some]
      · rw [get_eq, held, if_pos rfl, Option.join_some]
      · intro other different
        rw [held, if_neg different]
    | cons index free =>
      have first : index ∈ table.free := front ▸ List.mem_cons_self
      have vacant : history.value ⟨index⟩ = none := by
        rw [← follows.value, RootTable.value, (follows.mem_free index).mp first]
        rfl
      have place : (⟨index⟩ : RootId).index < table.slots.size := follows.free_lt first
      rw [add_of_free front]
      exact ⟨_, _, rfl, rfl, vacant, answers_overwritten place (.occupied object) free⟩
  | set id object =>
    rw [AnswersBy, answer, ← follows.value, ← isAllocated_eq, set]
    split
    · rename_i allocated
      exact ⟨_, rfl, answers_overwritten (lt_size_of_isAllocated allocated) (.occupied object) _⟩
    · rfl
  | get id =>
    rw [AnswersBy, answer, get_eq, follows.value]
  | remove id =>
    rw [AnswersBy, answer, ← follows.value, ← isAllocated_eq, remove]
    split
    · rename_i allocated
      exact ⟨_, rfl, answers_overwritten (lt_size_of_isAllocated allocated) .vacant _⟩
    · rfl
  | clear => exact ⟨_, rfl, rfl, fun _ => ⟨rfl, rfl⟩⟩

/-- After any calls, refused ones included, the table represents the map that the calls and their
    replies make, and whatever is asked next is answered by that map. -/
theorem refines_partial_map (calls : List RootCall) (call : RootCall) :
    (played calls).2.Represents (played calls).1 ∧
      (played calls).2.AnswersBy (played calls).1 call := by
  have follows : (played calls).2.Follows (played calls).1 := follows_empty.played calls
  exact ⟨follows.represents, follows.answersBy call⟩

end RootTable

end Reclaim
