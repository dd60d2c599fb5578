import Reclaim.Heap.Allocation
import Reclaim.Proofs.Object.Sizes

namespace Reclaim

namespace Request

def cost? (request : Request) : Option Word :=
  request.layout.payloadSize? request.length >>= allocationCost?

variable {request : Request} {types : TypeTable} {queues : Nat} {descriptor : Descriptor}

/-- A request gives the layout that is registered for its type, and claims a weak slot only if there
    is one. -/
structure Agrees (request : Request) (descriptor : Descriptor) : Prop where
  layout : descriptor.layout = request.layout
  weakSlot : request.weakSlot = true → descriptor.weakOffset.isSome = true

def Queued (request : Request) (queues : Nat) : Prop :=
  ∀ finalizer, request.finalizer = some finalizer → finalizer.queue.index < queues

structure Suits (request : Request) (types : TypeTable) (queues : Nat) : Prop where
  agrees : ∃ descriptor, types.get? request.typeId = some descriptor ∧ request.Agrees descriptor
  queued : request.Queued queues

def totalBytes (request : Request) : Nat :=
  8 + request.layout.payloadBytes request.length

theorem cost?_eq_none : request.cost? = none ↔ 2 ^ 64 - 8 < request.totalBytes :=
  Layout.cost_eq_none

theorem cost?_iff_isLeast {cost : Word} :
    request.cost? = some cost ↔ IsLeast {n | 8 ∣ n ∧ request.totalBytes ≤ n} cost.toNat :=
  Layout.cost_iff_isLeast

inductive Judged (request : Request) (types : TypeTable) (queues : Nat) :
    Except AllocError Word → Prop
  | unknownType (unknown : types.get? request.typeId = none) :
      Judged request types queues (.error (.unknownType request.typeId))
  | mismatch {descriptor : Descriptor} (known : types.get? request.typeId = some descriptor)
      (differs : ¬ request.Agrees descriptor) :
      Judged request types queues (.error (.layoutMismatch request.typeId))
  | unknownQueue {descriptor : Descriptor} {finalizer : Finalizer}
      (known : types.get? request.typeId = some descriptor) (agrees : request.Agrees descriptor)
      (wanted : request.finalizer = some finalizer) (outside : queues ≤ finalizer.queue.index) :
      Judged request types queues (.error (.unknownQueue finalizer.queue))
  | tooLarge (suits : request.Suits types queues) (none : request.cost? = none) :
      Judged request types queues (.error .outOfMemory)
  | admitted {cost : Word} (suits : request.Suits types queues)
      (price : request.cost? = some cost) : Judged request types queues (.ok cost)

theorem agrees_iff : request.Agrees descriptor ↔ ¬ (descriptor.layout ≠ request.layout ∨
    (request.weakSlot = true ∧ descriptor.weakOffset.isNone = true)) := by
  constructor
  · rintro ⟨layout, weakSlot⟩ (differs | ⟨claimed, none⟩)
    · exact differs layout
    · have slot := weakSlot claimed
      rw [Option.isNone_iff_eq_none.mp none] at slot
      cases slot
  · intro agrees
    rw [not_or, Decidable.not_not] at agrees
    refine ⟨agrees.1, fun claimed => ?_⟩
    rw [← Option.not_isNone, Bool.not_eq_true']
    exact Bool.eq_false_iff.mpr fun none => agrees.2 ⟨claimed, none⟩

theorem Suits.judged (suits : request.Suits types queues) : request.Judged types queues
    (match request.layout.payloadSize? request.length >>= allocationCost? with
      | some cost => .ok cost
      | none => .error .outOfMemory) := by
  cases price : request.layout.payloadSize? request.length >>= allocationCost? with
  | none => exact .tooLarge suits price
  | some cost => exact .admitted suits price

theorem judged (request : Request) (types : TypeTable) (queues : Nat) :
    request.Judged types queues (request.accept types queues) := by
  rw [accept]
  cases known : types.get? request.typeId with
  | none => exact .unknownType known
  | some descriptor =>
    by_cases agrees : request.Agrees descriptor
    · simp only [agrees_iff.mp agrees, if_false]
      cases wanted : request.finalizer with
      | none =>
        have queued : request.Queued queues := by
          intro finalizer same
          rw [wanted] at same
          cases same
        exact Suits.judged ⟨⟨descriptor, known, agrees⟩, queued⟩
      | some finalizer =>
        by_cases outside : queues ≤ finalizer.queue.index
        · simp only [if_pos outside]
          exact .unknownQueue known agrees wanted outside
        · have queued : request.Queued queues := by
            intro other same
            rw [wanted] at same
            cases same
            exact Nat.lt_of_not_le outside
          simp only [if_neg outside]
          exact Suits.judged ⟨⟨descriptor, known, agrees⟩, queued⟩
    · have differs := Decidable.not_not.mp (mt agrees_iff.mpr agrees)
      simp only [differs, if_true]
      exact .mismatch known agrees

theorem Suits.accept_eq (suits : request.Suits types queues) :
    request.accept types queues =
      match request.cost? with
      | some cost => .ok cost
      | none => .error .outOfMemory := by
  obtain ⟨⟨descriptor, known, agrees⟩, queued⟩ := suits
  have judged := request.judged types queues
  generalize request.accept types queues = verdict at judged
  cases judged with
  | unknownType unknown =>
    rw [known] at unknown
    cases unknown
  | mismatch found differs =>
    cases known.symm.trans found
    exact absurd agrees differs
  | unknownQueue _ _ wanted outside => exact absurd (queued _ wanted) (Nat.not_lt.mpr outside)
  | tooLarge _ none => rw [none]
  | admitted _ price => rw [price]

theorem accept_eq_ok {cost : Word} : request.accept types queues = .ok cost ↔
    request.Suits types queues ∧ request.cost? = some cost := by
  constructor
  · intro accepted
    have judged := request.judged types queues
    rw [accepted] at judged
    cases judged with
    | admitted suits price => exact ⟨suits, price⟩
  · rintro ⟨suits, price⟩
    rw [suits.accept_eq, price]

theorem accept_eq_outOfMemory : request.accept types queues = .error .outOfMemory ↔
    request.Suits types queues ∧ request.cost? = none := by
  constructor
  · intro refused
    have judged := request.judged types queues
    rw [refused] at judged
    cases judged with
    | tooLarge suits none => exact ⟨suits, none⟩
  · rintro ⟨suits, none⟩
    rw [suits.accept_eq, none]

theorem accept_eq_layoutMismatch {typeId : TypeId} :
    request.accept types queues = .error (.layoutMismatch typeId) ↔
      request.typeId = typeId ∧ ∃ descriptor, types.get? request.typeId = some descriptor ∧
        ¬ request.Agrees descriptor := by
  constructor
  · intro refused
    have judged := request.judged types queues
    rw [refused] at judged
    cases judged with
    | mismatch known differs => exact ⟨rfl, _, known, differs⟩
  · rintro ⟨rfl, descriptor, known, differs⟩
    have only {other : Descriptor} (found : types.get? request.typeId = some other) :
        ¬ request.Agrees other := by
      cases known.symm.trans found
      exact differs
    have judged := request.judged types queues
    generalize request.accept types queues = verdict at judged
    cases judged with
    | unknownType unknown =>
      rw [known] at unknown
      cases unknown
    | mismatch => rfl
    | unknownQueue found agrees => exact absurd agrees (only found)
    | tooLarge suits | admitted suits =>
      obtain ⟨_, found, agrees⟩ := suits.agrees
      exact absurd agrees (only found)

end Request

end Reclaim
