import Mathlib.Tactic.Tauto
import Reclaim.Cycle.Finalize
import Reclaim.Proofs.Cycle.Walk
import Reclaim.Proofs.Heap.Actions

namespace Reclaim

/-- How entries are divided when everything reached from some starts is alive. -/
inductive Divides (reached : List Ref → Ref → Prop) :
    List Ref → List FinalizerEntry → List FinalizerEntry → List FinalizerEntry → Prop
  | nil (starts : List Ref) : Divides reached starts [] [] []
  | keep {starts : List Ref} {entry : FinalizerEntry} {rest kept scheduled : List FinalizerEntry}
      (alive : reached starts entry.object)
      (more : Divides reached (starts ++ [entry.object]) rest kept scheduled) :
      Divides reached starts (entry :: rest) (entry :: kept) scheduled
  | schedule {starts : List Ref} {entry : FinalizerEntry}
      {rest kept scheduled : List FinalizerEntry} (dead : ¬ reached starts entry.object)
      (more : Divides reached (starts ++ [entry.object]) rest kept scheduled) :
      Divides reached starts (entry :: rest) kept (entry :: scheduled)

namespace Divides

variable {reached : List Ref → Ref → Prop} {starts : List Ref}
  {entries kept scheduled : List FinalizerEntry}

theorem kept_sublist (h : Divides reached starts entries kept scheduled) :
    kept.Sublist entries := by
  induction h with
  | nil => exact .slnil
  | keep _ _ ih => exact ih.cons_cons _
  | schedule _ _ ih => exact ih.cons _

theorem scheduled_sublist (h : Divides reached starts entries kept scheduled) :
    scheduled.Sublist entries := by
  induction h with
  | nil => exact .slnil
  | keep _ _ ih => exact ih.cons _
  | schedule _ _ ih => exact ih.cons_cons _

theorem perm (h : Divides reached starts entries kept scheduled) :
    (kept ++ scheduled).Perm entries := by
  induction h with
  | nil => exact .nil
  | keep _ _ ih => exact ih.cons _
  | schedule _ _ ih => exact List.perm_middle.trans (ih.cons _)

end Divides

theorem TypeTable.reachable_eq {types : TypeTable} {memory other : Memory}
    (same : ∀ o, types.children other o = types.children memory o) :
    types.Reachable other = types.Reachable memory := by
  funext starts object
  exact propext (reachable_congr same)

theorem Memory.Marked.reachable {types : TypeTable} {before after : Memory} {found due : List Ref}
    (h : before.Marked after found due) : types.Reachable after = types.Reachable before :=
  TypeTable.reachable_eq h.children

namespace Heap

variable {σ : Type}

def schedulings (entries : List FinalizerEntry) : List Event :=
  entries.map fun entry => .logged (.schedulingFinalizer entry)

def marking (heap : Heap σ) (memory : Memory) (events : List Event) : Heap σ :=
  { heap with memory, journal := heap.journal ++ events.toArray }

theorem marking_marking (heap : Heap σ) (first second : Memory) (events more : List Event) :
    (heap.marking first events).marking second more = heap.marking second (events ++ more) := by
  simp [marking]

structure Divided (heap : Heap σ) (starts : List Ref) (part : Partition)
    (entries kept scheduled : List FinalizerEntry) (revived : List Ref) (after : Memory) :
    Prop where
  run : divide part entries heap =
    .ok
      { kept := kept.reverse ++ part.kept
        scheduled := scheduled.reverse ++ part.scheduled
        revived := part.revived + revived.length }
      (heap.marking after (schedulings scheduled))
  divides : Divides (heap.types.Reachable heap.memory) starts entries kept scheduled
  marked : heap.memory.Marked after revived (scheduled.map FinalizerEntry.object)
  nodup : revived.Nodup
  mem_iff : ∀ o, o ∈ revived ↔
    heap.types.Reachable heap.memory (starts ++ entries.map FinalizerEntry.object) o ∧
      ¬ heap.types.Reachable heap.memory starts o

theorem revive_eq_ok {heap : Heap σ} {entry : FinalizerEntry} {found : List Ref} {after : Memory}
    (pending : (heap.memory.flags entry.object).contains .finalizerReachable = false)
    (ran : Walk.Ran heap.types { memory := heap.memory.addFlag entry.object .finalizerReachable }
      [entry.object] found after) :
    revive entry heap = .ok found (heap.marking after (schedulings [entry])) := by
  have flagged : revive entry heap = Heap.mark [entry.object] (heap.marking
      (heap.memory.addFlag entry.object .finalizerReachable) (schedulings [entry])) := by
    simp only [revive, get_bind, pending]
    rfl
  exact flagged.trans (mark_eq_ok ran)

theorem divide_cons (part : Partition) (entry : FinalizerEntry) (rest : List FinalizerEntry)
    (heap : Heap σ) :
    divide part (entry :: rest) heap =
      if heap.memory.isSurviving entry.object then
        divide { part with kept := entry :: part.kept } rest heap
      else
        (onFault (fun heap => { heap with finalizers := rest.toArray }) (revive entry) >>=
          fun marked => divide
            { part with
              scheduled := entry :: part.scheduled
              revived := part.revived + marked.length } rest) heap := by
  rw [divide, get_bind]
  split <;> rfl

theorem Divided.nil (heap : Heap σ) (starts : List Ref) (part : Partition) :
    Divided heap starts part [] [] [] [] heap.memory := by
  refine ⟨?_, .nil starts, .refl _, List.nodup_nil, ?_⟩
  · simp [divide, pure_apply, marking, schedulings]
  · simp

theorem scheduleFinalizers_eq_ok {heap : Heap σ} {starts : List Ref}
    {kept scheduled : List FinalizerEntry} {revived : List Ref} {after : Memory}
    (divided : Divided heap starts {} heap.finalizers.toList kept scheduled revived after) :
    scheduleFinalizers heap = .ok (scheduled, revived.length)
      { heap.marking after (schedulings scheduled) with finalizers := kept.toArray } := by
  rw [scheduleFinalizers, get_bind, bind_of_ok divided.run, modify_bind, pure_apply]
  simp

theorem Divided.keep {heap : Heap σ} {starts : List Ref} {part : Partition} {entry : FinalizerEntry}
    {rest kept scheduled : List FinalizerEntry} {revived : List Ref} {after : Memory}
    (surviving : heap.memory.isSurviving entry.object = true)
    (alive : heap.types.Reachable heap.memory starts entry.object)
    (more : Divided heap (starts ++ [entry.object]) { part with kept := entry :: part.kept } rest
      kept scheduled revived after) :
    Divided heap starts part (entry :: rest) (entry :: kept) scheduled revived after := by
  refine ⟨?_, .keep alive more.divides, more.marked, more.nodup, ?_⟩
  · rw [divide_cons, if_pos surviving, more.run]
    simp
  · intro o
    rw [more.mem_iff, TypeTable.reachable_append_singleton alive, List.map_cons,
      List.append_assoc, List.singleton_append]

theorem Divided.schedule {heap : Heap σ} {starts : List Ref} {part : Partition}
    {entry : FinalizerEntry} {rest kept scheduled : List FinalizerEntry} {found revived : List Ref}
    {middle after : Memory} (surviving : heap.memory.isSurviving entry.object = false)
    (pending : (heap.memory.flags entry.object).contains .finalizerReachable = false)
    (dead : ¬ heap.types.Reachable heap.memory starts entry.object)
    (ran : Walk.Ran heap.types { memory := heap.memory.addFlag entry.object .finalizerReachable }
      [entry.object] found middle)
    (found_iff : ∀ o, o ∈ found ↔
      heap.types.Reachable heap.memory (starts ++ [entry.object]) o ∧
        ¬ heap.types.Reachable heap.memory starts o)
    (more : Divided (heap.marking middle (schedulings [entry])) (starts ++ [entry.object])
      { part with
        scheduled := entry :: part.scheduled
        revived := part.revived + found.length }
      rest kept scheduled revived after) :
    Divided heap starts part (entry :: rest) kept (entry :: scheduled) (found ++ revived) after := by
  have marks : heap.memory.Marked middle found [entry.object] := by
    have both := (Memory.Marked.flag heap.memory entry.object).trans ran.marked
    simpa using both
  -- marks are in the headers, so what can be reached is the same before and after
  have same : heap.types.Reachable middle = heap.types.Reachable heap.memory := marks.reachable
  have divides := more.divides
  have late := more.mem_iff
  simp only [marking, same] at divides late
  refine ⟨?_, .schedule dead divides, ?_, ?_, ?_⟩
  · rw [divide_cons, if_neg (by simp [surviving]), bind_of_ok (onFault_of_ok (revive_eq_ok pending ran)),
      more.run, marking_marking]
    simp [schedulings, Nat.add_assoc]
  · have all := marks.trans more.marked
    simpa using all
  · refine List.nodup_append.mpr ⟨ran.nodup, more.nodup, ?_⟩
    rintro a early b member rfl
    exact ((late a).mp member).2 ((found_iff a).mp early).1
  · intro o
    rw [List.mem_append, late, found_iff, List.map_cons, List.append_assoc,
      List.singleton_append]
    have grows : heap.types.Reachable heap.memory (starts ++ [entry.object]) o →
        heap.types.Reachable heap.memory
          (starts ++ entry.object :: rest.map FinalizerEntry.object) o := by
      refine TypeTable.Reachable.mono fun s member => .start ?_
      rw [List.mem_append, List.mem_singleton] at member
      rw [List.mem_append, List.mem_cons]
      tauto
    have grows' : heap.types.Reachable heap.memory starts o →
        heap.types.Reachable heap.memory (starts ++ [entry.object]) o := fun h => h.append _
    tauto

/-- A heap whose marked objects are those reached from the roots and from the entries that have been
    seen, when some entries are left. -/
structure Partway (heap : Heap σ) (starts : List Ref) (entries : List FinalizerEntry) : Prop where
  marks : ∀ o, heap.types.Reachable heap.memory (starts ++ entries.map FinalizerEntry.object) o →
    (heap.memory.isSurviving o = true ↔ heap.types.Reachable heap.memory starts o)
  reports : ∀ o, heap.types.Reachable heap.memory (starts ++ entries.map FinalizerEntry.object) o →
    ∃ children, heap.types.children heap.memory o = .ok children
  nodup : (entries.map FinalizerEntry.object).Nodup
  pending : ∀ o ∈ entries.map FinalizerEntry.object,
    (heap.memory.flags o).contains .finalizerReachable = false

section Partway

variable {heap : Heap σ} {starts : List Ref} {entry : FinalizerEntry} {rest : List FinalizerEntry}
  (partway : heap.Partway starts (entry :: rest))

include partway

theorem Partway.reachable_first :
    heap.memory.isSurviving entry.object = true ↔
      heap.types.Reachable heap.memory starts entry.object :=
  partway.marks _ (.start (List.mem_append_right _ List.mem_cons_self))

theorem Partway.marks_rest {o : Ref}
    (reached : heap.types.Reachable heap.memory
      ((starts ++ [entry.object]) ++ rest.map FinalizerEntry.object) o) :
    heap.memory.isSurviving o = true ↔ heap.types.Reachable heap.memory starts o := by
  rw [List.append_assoc] at reached
  exact partway.marks o reached

theorem Partway.reports_rest {o : Ref}
    (reached : heap.types.Reachable heap.memory
      ((starts ++ [entry.object]) ++ rest.map FinalizerEntry.object) o) :
    ∃ children, heap.types.children heap.memory o = .ok children := by
  rw [List.append_assoc] at reached
  exact partway.reports o reached

theorem Partway.keep (surviving : heap.memory.isSurviving entry.object = true) :
    heap.Partway (starts ++ [entry.object]) rest where
  marks := by
    intro o reached
    rw [TypeTable.reachable_append_singleton (partway.reachable_first.mp surviving)]
    exact partway.marks_rest reached
  reports := fun _ => partway.reports_rest
  nodup := (List.nodup_cons.mp partway.nodup).2
  pending := fun o member => partway.pending o (List.mem_cons_of_mem _ member)

theorem Partway.exists_found :
    ∃ found middle,
      Walk.Ran heap.types { memory := heap.memory.addFlag entry.object .finalizerReachable }
        [entry.object] found middle ∧
      ∀ o, o ∈ found ↔ heap.types.Reachable heap.memory (starts ++ [entry.object]) o ∧
        ¬ heap.types.Reachable heap.memory starts o := by
  have flagged := Memory.Marked.flag heap.memory entry.object
  have same : heap.types.Reachable (heap.memory.addFlag entry.object .finalizerReachable) =
      heap.types.Reachable heap.memory := flagged.reachable
  have finds (o : Ref) : Walk.Finds heap.types
      (heap.memory.addFlag entry.object .finalizerReachable) [entry.object] o ↔
      heap.types.Reachable heap.memory (starts ++ [entry.object]) o ∧
        ¬ heap.types.Reachable heap.memory starts o := by
    rw [← same]
    apply Walk.finds_iff_reachable
    intro o reached
    rw [same] at reached ⊢
    rw [Memory.isSurviving_addFlag_finalizerReachable]
    exact partway.marks_rest (reached.append _)
  obtain ⟨found, middle, ran⟩ : ∃ found middle, Walk.Ran heap.types
      { memory := heap.memory.addFlag entry.object .finalizerReachable } [entry.object] found
      middle := by
    apply Walk.exists_ran
    intro o found
    obtain ⟨children, reported⟩ := partway.reports_rest (((finds o).mp found).1.append _)
    exact ⟨children, (flagged.children o).trans reported⟩
  exact ⟨found, middle, ran, fun o => (ran.mem_iff o).trans (finds o)⟩

theorem Partway.schedule {found : List Ref} {middle : Memory}
    (ran : Walk.Ran heap.types { memory := heap.memory.addFlag entry.object .finalizerReachable }
      [entry.object] found middle)
    (found_iff : ∀ o, o ∈ found ↔
      heap.types.Reachable heap.memory (starts ++ [entry.object]) o ∧
        ¬ heap.types.Reachable heap.memory starts o) :
    (heap.marking middle (schedulings [entry])).Partway (starts ++ [entry.object]) rest := by
  have marked := (Memory.Marked.flag heap.memory entry.object).trans ran.marked
  rw [List.nil_append, List.append_nil] at marked
  have same : heap.types.Reachable middle = heap.types.Reachable heap.memory := marked.reachable
  have distinct := List.nodup_cons.mp partway.nodup
  constructor
  · intro o reached
    simp only [marking, same] at reached ⊢
    rw [marked.isSurviving, Bool.or_eq_true, decide_eq_true_eq, found_iff,
      partway.marks_rest reached]
    have grows : heap.types.Reachable heap.memory starts o →
        heap.types.Reachable heap.memory (starts ++ [entry.object]) o := fun h => h.append _
    tauto
  · intro o reached
    simp only [marking, same] at reached ⊢
    obtain ⟨children, reported⟩ := partway.reports_rest reached
    exact ⟨children, (marked.children o).trans reported⟩
  · exact distinct.2
  · intro o member
    have other : o ∉ [entry.object] := by
      intro same
      rw [List.mem_singleton.mp same] at member
      exact distinct.1 member
    have pending := partway.pending o (List.mem_cons_of_mem _ member)
    simp only [marking]
    rw [marked.finalizerReachable, pending]
    simpa using other

end Partway

theorem exists_divided (heap : Heap σ) (starts : List Ref) (part : Partition)
    (entries : List FinalizerEntry) (partway : heap.Partway starts entries) :
    ∃ kept scheduled revived after,
      Divided heap starts part entries kept scheduled revived after := by
  -- what is marked is always what the roots and the entries seen so far reach
  induction entries generalizing heap starts part with
  | nil => exact ⟨[], [], [], heap.memory, .nil heap starts part⟩
  | cons entry rest ih =>
    cases surviving : heap.memory.isSurviving entry.object with
    | true =>
      have alive := partway.reachable_first.mp surviving
      obtain ⟨kept, scheduled, revived, after, more⟩ := ih heap _ _ (partway.keep surviving)
      exact ⟨_, _, _, _, more.keep surviving alive⟩
    | false =>
      have dead : ¬ heap.types.Reachable heap.memory starts entry.object := by
        intro alive
        rw [partway.reachable_first.mpr alive] at surviving
        cases surviving
      obtain ⟨found, middle, ran, found_iff⟩ := partway.exists_found
      obtain ⟨kept, scheduled, revived, after, more⟩ := ih
        (heap.marking middle (schedulings [entry])) (starts ++ [entry.object])
        { part with
          scheduled := entry :: part.scheduled
          revived := part.revived + found.length }
        (partway.schedule ran found_iff)
      have unflagged := partway.pending entry.object List.mem_cons_self
      exact ⟨_, _, _, _, .schedule surviving unflagged dead ran found_iff more⟩

end Heap

end Reclaim
