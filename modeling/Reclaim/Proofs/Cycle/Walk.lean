import Reclaim.Proofs.Cycle.Reachability

namespace Reclaim

namespace Walk

variable {types : TypeTable}

structure Ran (types : TypeTable) (walk : Walk) (stack found : List Ref) (after : Memory) : Prop where
  run : run types walk stack = .ok () { memory := after, marked := found.reverse ++ walk.marked }
  nodup : found.Nodup
  mem_iff : ∀ o, o ∈ found ↔ Finds types walk.memory stack o
  marked : walk.memory.Marked after found []

theorem Ran.nil (walk : Walk) : Ran types walk [] [] walk.memory := by
  refine ⟨run_nil types walk, List.nodup_nil, ?_, .refl _⟩
  intro o
  constructor
  · intro member
    cases member
  · intro h
    cases TypeTable.not_reachable_nil h.reachable

theorem Ran.skip {walk : Walk} {object : Ref} {stack found : List Ref} {after : Memory}
    (surviving : walk.memory.isSurviving object = true) (rest : Ran types walk stack found after) :
    Ran types walk (object :: stack) found after := by
  refine ⟨(run_cons_of_surviving surviving).trans rest.run, rest.nodup, ?_, rest.marked⟩
  intro o
  rw [rest.mem_iff, finds_cons_of_surviving surviving]

theorem Ran.visit {walk : Walk} {object : Ref} {stack found children : List Ref} {after : Memory}
    (fresh : walk.memory.isSurviving object = false)
    (reported : types.children walk.memory object = .ok children)
    (rest : Ran types (walk.visit object) (children.reverse ++ stack) found after) :
    Ran types walk (object :: stack) (object :: found) after := by
  have reported' : types.children (walk.visit object).memory object = .ok children :=
    (children_mark ..).trans reported
  refine ⟨?_, ?_, ?_, ?_⟩
  · rw [run_cons_of_not_surviving fresh, reported']
    refine rest.run.trans ?_
    simp [Walk.visit]
  · refine List.nodup_cons.mpr ⟨?_, rest.nodup⟩
    intro member
    have unmarked := ((rest.mem_iff object).mp member).unmarked
    rw [Walk.visit, Memory.isSurviving_addFlag_self] at unmarked
    cases unmarked
  · intro o
    rw [List.mem_cons, rest.mem_iff, finds_cons_of_not_surviving fresh reported]
    rfl
  · exact (Memory.Marked.mark walk.memory object).trans rest.marked

theorem exists_ran (walk : Walk) (stack : List Ref)
    (reports : ∀ o, Finds types walk.memory stack o →
      ∃ children, types.children walk.memory o = .ok children) :
    ∃ found after, Ran types walk stack found after := by
  -- Every visit leaves fewer unmarked addresses; between visits the stack gets shorter.
  induction bound : unmarked walk.memory using Nat.strongRecOn generalizing walk stack with
  | ind n ih =>
    subst bound
    induction stack with
    | nil => exact ⟨[], walk.memory, .nil walk⟩
    | cons object stack stackIh =>
      cases surviving : walk.memory.isSurviving object with
      | true =>
        obtain ⟨found, after, rest⟩ := stackIh fun o h =>
          reports o ((finds_cons_of_surviving surviving).mpr h)
        exact ⟨found, after, rest.skip surviving⟩
      | false =>
        obtain ⟨children, reported⟩ := reports object (.start List.mem_cons_self surviving)
        have found_iff (o : Ref) := @finds_cons_of_not_surviving _ _ stack _ o _ surviving reported
        have less : unmarked (walk.visit object).memory < unmarked walk.memory :=
          unmarked_mark_lt surviving
        obtain ⟨found, after, rest⟩ := ih _ less (walk.visit object) (children.reverse ++ stack)
          (fun o h => by
            obtain ⟨cs, known⟩ := reports o ((found_iff o).mpr (.inr h))
            exact ⟨cs, (children_mark ..).trans known⟩) rfl
        exact ⟨object :: found, after, rest.visit surviving reported⟩

end Walk

variable {σ : Type}

theorem Heap.mark_eq_ok {heap : Heap σ} {objects found : List Ref} {after : Memory}
    (ran : Walk.Ran heap.types { memory := heap.memory } objects.reverse found after) :
    Heap.mark objects heap = .ok found { heap with memory := after } := by
  simp only [Heap.mark, ran.run, List.append_nil, List.reverse_reverse]

end Reclaim
