import Reclaim.Proofs.Run.Soundness

namespace Reclaim

variable {σ : Type}

def Happening.granted? (o : Ref) : Happening σ → Option Request
  | .allocated object request _ => if object = o then some request else none
  | _ => none

namespace Heap

variable {before after : Heap σ} {o : Ref}

structure Unaltered (before after : Heap σ) (o : Ref) : Prop where
  types : after.types = before.types
  shape : before.types.SameShape before.memory after.memory o
  external : (after.memory.flags o).contains .external =
    (before.memory.flags o).contains .external

theorem Unaltered.of_headerWord (types : after.types = before.types)
    (shape : before.types.SameShape before.memory after.memory o)
    (headerWord : after.memory.headerWord o = before.memory.headerWord o) :
    before.Unaltered after o :=
  ⟨types, shape, by rw [Memory.flags_congr headerWord]⟩

theorem Unaltered.cost (same : before.Unaltered after o) : after.cost o = before.cost o := by
  rw [Heap.cost, Heap.cost, same.types, TypeTable.cost_congr same.shape]

theorem Aside.unaltered (h : before.Aside after) (o : Ref) : before.Unaltered after o := by
  refine .of_headerWord h.types ?_ ?_ <;> rw [h.memory]
  exact .refl

theorem Wrote.unaltered {object : Ref} {offset : Nat} {bytes : List UInt8}
    (h : before.Wrote after object offset bytes) (o : Ref) : before.Unaltered after o :=
  .of_headerWord (by rw [h.after_eq]) (h.sameShape o) (h.headerWord o)

variable [RawMemory σ]

theorem Reclaimed.unaltered {cycle : Cycle} (consistent : before.Consistent)
    (h : before.Reclaimed cycle after) (o : Ref) : before.Unaltered after o where
  types := h.types
  shape := h.sameShape consistent.types_valid o
  external := by
    rw [Flags.external_eq_single]
    exact h.contains_single (by decide) (by decide) o

theorem Granted.unaltered {request : Request} {cost : Word} {object : Ref}
    (h : before.Granted after request cost object) (fresh : object ∉ before.live)
    (live : o ∈ before.live) : before.Unaltered after o :=
  .of_headerWord h.types (h.sameShape_old fresh live) (h.headerWord_old fresh live)

end Heap

variable [RawMemory σ]

/-- How the objects of a heap change while something happens. -/
inductive Heap.Change (before : Heap σ) (new : List (Happening σ)) (after : Heap σ) : Prop
  | spared (none_granted : ∀ o, ∀ happening ∈ new, happening.granted? o = none)
      (left : ∀ o ∈ after.live, o ∈ before.live ∧ before.Unaltered after o)
  | granted {object : Ref} {request : Request} {cost : Word} {descriptor : Descriptor}
      {queues : Nat} {given : Option (Ref → Program σ)} (fresh : object ∉ before.live)
      (admitted : request.Admitted before.types queues cost descriptor)
      (granted : before.Granted after request cost object)
      (only : new = [.allocated object request given])

theorem Heap.Aside.change {before after : Heap σ} (h : before.Aside after)
    {new : List (Happening σ)}
    (none_granted : ∀ o, ∀ happening ∈ new, happening.granted? o = none) :
    before.Change new after := by
  refine .spared none_granted fun o member => ⟨?_, h.unaltered o⟩
  rwa [h.live_eq] at member

omit [RawMemory σ] in
theorem Happening.of_mem_ofCycle {before after : Heap σ} {cycle : Cycle} {happening : Happening σ}
    (member : happening ∈ ofCycle before cycle after) :
    (∃ entry, happening = .scheduled entry) ∨ ∃ object, happening = .freed object := by
  rcases List.mem_append.mp member with scheduled | freed
  · obtain ⟨entry, _, rfl⟩ := List.mem_map.mp scheduled
    exact .inl ⟨entry, rfl⟩
  · obtain ⟨object, _, rfl⟩ := List.mem_map.mp freed
    exact .inr ⟨object, rfl⟩

omit [RawMemory σ] in
theorem Happening.granted?_ofCycle {before after : Heap σ} {cycle : Cycle} (o : Ref) :
    ∀ happening ∈ ofCycle before cycle after, happening.granted? o = none := by
  intro happening member
  rcases of_mem_ofCycle member with ⟨entry, rfl⟩ | ⟨object, rfl⟩ <;> rfl

theorem Effect.change {before : Collector σ} {code : Code σ} {new : List (Happening σ)}
    {after : Heap σ} (effect : Effect before code new after) (accounted : before.heap.Accounted) :
    before.heap.Change new after := by
  cases effect with
  | aside h => exact h.change nofun
  | wrote called writes h =>
    refine .spared nofun fun o member => ⟨?_, h.unaltered o⟩
    rwa [h.live_eq] at member
  | granted admitted fits h => exact .granted (fresh_of_fits accounted admitted fits) admitted h rfl
  | cleared h =>
    refine .spared ?_ fun o member => ?_
    · intro o happening member
      obtain ⟨object, _, rfl⟩ := List.mem_map.mp member
      rfl
    · rw [Heap.live, h.objects, h.external] at member
      cases member

theorem Step.change {point next : Point σ} (step : Step point next) (sound : Sound point)
    (lawful : point.Lawful) : ∃ new, next.history = point.history ++ new ∧
      point.collector.heap.Change new next.collector.heap := by
  cases step with
  | @code before after code rest new step place history =>
    have member : code ∈ (Stage.code place code).codes := by
      cases place <;> exact List.mem_cons_self
    obtain ⟨effect, _⟩ := step.effect sound.consistent lawful (sound.pending code member)
    exact ⟨new, rfl, effect.change sound.accounted⟩
  | nested busy next history =>
    exact ⟨[], (List.append_nil _).symm, (Heap.aside_record _ _).change nofun⟩
  | reclaim idle reclaimed next history =>
    have h := Heap.reclaimed_of_ok sound.consistent (lawful idle) reclaimed
    exact ⟨_, rfl, .spared Happening.granted?_ofCycle fun o member =>
      ⟨(h.mem_live.mp member).1, h.unaltered sound.consistent o⟩⟩
  | call found cycle waiting caller history =>
    refine ⟨_, rfl, (Heap.aside_record _ _).change ?_⟩
    intro o happening member
    rw [List.mem_singleton.mp member]
    rfl
  | «return» collector entry collection history =>
    refine ⟨_, rfl, .spared ?_ fun o member => ⟨member, .of_headerWord rfl .refl rfl⟩⟩
    intro o happening member
    rw [List.mem_singleton.mp member]
    rfl
  | finish finished caller history =>
    exact ⟨[], (List.append_nil _).symm, (Heap.finish_eq_ok finished).1.change nofun⟩

end Reclaim
