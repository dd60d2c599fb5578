import Reclaim.Cycle.Mark
import Reclaim.Proofs.Object.Types

namespace Reclaim

/-- What can be reached from some objects through the references that their types report. -/
inductive TypeTable.Reachable (types : TypeTable) (memory : Memory) (starts : List Ref) : Ref → Prop
  | start {object : Ref} (member : object ∈ starts) : Reachable types memory starts object
  | child {object child : Ref} {children : List Ref} (parent : Reachable types memory starts object)
      (reported : types.children memory object = .ok children) (member : child ∈ children) :
      Reachable types memory starts child

inductive Walk.Finds (types : TypeTable) (memory : Memory) (stack : List Ref) : Ref → Prop
  | start {object : Ref} (member : object ∈ stack) (unmarked : memory.isSurviving object = false) :
      Finds types memory stack object
  | child {object child : Ref} {children : List Ref} (parent : Finds types memory stack object)
      (reported : types.children memory object = .ok children) (member : child ∈ children)
      (unmarked : memory.isSurviving child = false) : Finds types memory stack child

namespace TypeTable

variable {types : TypeTable} {memory other : Memory} {starts more : List Ref} {object : Ref}

theorem Reachable.mono (sub : ∀ o ∈ starts, types.Reachable memory more o)
    (h : types.Reachable memory starts object) : types.Reachable memory more object := by
  induction h with
  | start member => exact sub _ member
  | child _ reported member ih => exact ih.child reported member

theorem Reachable.append (h : types.Reachable memory starts object) (more : List Ref) :
    types.Reachable memory (starts ++ more) object :=
  h.mono fun _ member => .start (List.mem_append_left _ member)

theorem reachable_append_singleton {known : Ref} (reached : types.Reachable memory starts known) :
    types.Reachable memory (starts ++ [known]) object ↔ types.Reachable memory starts object := by
  refine ⟨Reachable.mono ?_, fun h => h.append _⟩
  intro o member
  rcases List.mem_append.mp member with member | member
  · exact .start member
  · rw [List.mem_singleton.mp member]
    exact reached

theorem Reachable.congr (same : ∀ o, types.children other o = types.children memory o)
    (h : types.Reachable memory starts object) : types.Reachable other starts object := by
  induction h with
  | start member => exact .start member
  | child _ reported member ih => exact ih.child ((same _).trans reported) member

theorem reachable_congr (same : ∀ o, types.children other o = types.children memory o) :
    types.Reachable other starts object ↔ types.Reachable memory starts object :=
  ⟨Reachable.congr fun o => (same o).symm, Reachable.congr same⟩

theorem reachable_of_mem_iff (same : ∀ o, o ∈ more ↔ o ∈ starts) :
    types.Reachable memory more object ↔ types.Reachable memory starts object :=
  ⟨Reachable.mono fun o member => .start ((same o).mp member),
    Reachable.mono fun o member => .start ((same o).mpr member)⟩

theorem not_reachable_nil : ¬ types.Reachable memory [] object := by
  intro h
  induction h with
  | start member => cases member
  | child _ _ _ ih => exact ih

def Closed (types : TypeTable) (memory : Memory) (live : List Ref) : Prop :=
  ∀ o ∈ live, ∃ children, types.children memory o = .ok children ∧ ∀ c ∈ children, c ∈ live

theorem Closed.mem_of_reachable {live : List Ref} (closed : types.Closed memory live)
    (inside : ∀ o ∈ starts, o ∈ live) (reached : types.Reachable memory starts object) :
    object ∈ live := by
  induction reached with
  | start member => exact inside _ member
  | child _ reported member ih =>
    obtain ⟨children, known, among⟩ := closed _ ih
    rw [reported] at known
    cases known
    exact among _ member

end TypeTable

namespace Walk

variable {types : TypeTable} {memory : Memory} {stack : List Ref} {object other : Ref}

theorem Finds.unmarked (h : Finds types memory stack object) :
    memory.isSurviving object = false := by
  cases h <;> assumption

theorem Finds.reachable (h : Finds types memory stack object) :
    types.Reachable memory stack object := by
  induction h with
  | start member _ => exact .start member
  | child _ reported member _ ih => exact ih.child reported member

theorem finds_cons_of_surviving (marked : memory.isSurviving object = true) :
    Finds types memory (object :: stack) other ↔ Finds types memory stack other := by
  constructor
  · intro h
    induction h with
    | start member unmarked =>
      rcases List.mem_cons.mp member with rfl | member
      · rw [marked] at unmarked
        cases unmarked
      · exact .start member unmarked
    | child _ reported member unmarked ih => exact ih.child reported member unmarked
  · intro h
    induction h with
    | start member unmarked => exact .start (List.mem_cons_of_mem _ member) unmarked
    | child _ reported member unmarked ih => exact ih.child reported member unmarked

theorem children_mark (types : TypeTable) (memory : Memory) (object other : Ref) :
    types.children (memory.addFlag object .surviving) other = types.children memory other :=
  TypeTable.children_congr (by simp) (by simp)

theorem finds_cons_of_not_surviving {children : List Ref}
    (fresh : memory.isSurviving object = false)
    (reported : types.children memory object = .ok children) :
    Finds types memory (object :: stack) other ↔
      other = object ∨
        Finds types (memory.addFlag object .surviving) (children.reverse ++ stack) other := by
  have marks (o : Ref) : (memory.addFlag object .surviving).isSurviving o = false ↔
      object ≠ o ∧ memory.isSurviving o = false := by
    rw [Memory.isSurviving_addFlag_surviving]
    simp
  constructor
  -- a path through `object` goes on from one of its children, so the object itself may be marked
  · intro h
    induction h with
    | @start o member unmarked =>
      by_cases same : object = o
      · exact .inl same.symm
      · right
        have member' := (List.mem_cons.mp member).resolve_left (Ne.symm same)
        exact .start (List.mem_append_right _ member') ((marks o).mpr ⟨same, unmarked⟩)
    | @child parent o reports _ known member unmarked ih =>
      by_cases same : object = o
      · exact .inl same.symm
      · right
        have unmarked' := (marks o).mpr ⟨same, unmarked⟩
        rcases ih with rfl | ih
        · rw [known] at reported
          cases reported
          exact .start (List.mem_append_left _ (List.mem_reverse.mpr member)) unmarked'
        · exact ih.child ((children_mark ..).trans known) member unmarked'
  · intro h
    rcases h with rfl | h
    · exact .start List.mem_cons_self fresh
    · have first : Finds types memory (object :: stack) object := .start List.mem_cons_self fresh
      induction h with
      | @start o member unmarked =>
        have before := ((marks o).mp unmarked).2
        rcases List.mem_append.mp member with member | member
        · exact first.child reported (List.mem_reverse.mp member) before
        · exact .start (List.mem_cons_of_mem _ member) before
      | @child parent o reports _ known member unmarked ih =>
        exact ih.child ((children_mark ..).symm.trans known) member ((marks o).mp unmarked).2

/-- If the marked objects are those reached from earlier starts, a walk finds what its own stack
    adds to them. -/
theorem finds_iff_reachable {starts : List Ref}
    (marked : ∀ o, types.Reachable memory (starts ++ stack) o →
      (memory.isSurviving o = true ↔ types.Reachable memory starts o)) :
    Finds types memory stack object ↔
      types.Reachable memory (starts ++ stack) object ∧ ¬ types.Reachable memory starts object := by
  constructor
  · intro h
    have reached : types.Reachable memory (starts ++ stack) object :=
      h.reachable.mono fun o member => .start (List.mem_append_right _ member)
    refine ⟨reached, ?_⟩
    intro early
    have contra := (marked _ reached).mpr early
    rw [h.unmarked] at contra
    cases contra
  · rintro ⟨h, late⟩
    have unmarked {o : Ref} (reached : types.Reachable memory (starts ++ stack) o)
        (late : ¬ types.Reachable memory starts o) : memory.isSurviving o = false := by
      rw [← Bool.not_eq_true, marked o reached]
      exact late
    induction h with
    | start member =>
      have member' := (List.mem_append.mp member).resolve_left fun early => late (.start early)
      exact .start member' (unmarked (.start member) late)
    | child parent reported member ih =>
      -- what refers to an object that the earlier starts do not reach is not reached by them either
      have late' := fun early : types.Reachable memory starts _ =>
        late (early.child reported member)
      exact (ih late').child reported member (unmarked (parent.child reported member) late)

end Walk

/-- What marking changes: the surviving flag is set on the objects found, and the objects whose
    finalizers are due are flagged as such. -/
structure Memory.Marked (before after : Memory) (found due : List Ref) : Prop where
  headerWord : ∀ o, after.headerWord o =
    (before.headerWord o ||| (if o ∈ due then Flags.finalizerReachable.mask else 0)) |||
      (if o ∈ found then Flags.surviving.mask else 0)
  payload : ∀ o, after.payload o = before.payload o

namespace Memory.Marked

variable {before middle after : Memory} {found found' due due' : List Ref} {types : TypeTable}

theorem refl (memory : Memory) : Marked memory memory [] [] :=
  ⟨fun o => by simp, fun o => rfl⟩

theorem mark (memory : Memory) (object : Ref) :
    Marked memory (memory.addFlag object .surviving) [object] [] := by
  refine ⟨fun o => ?_, fun o => by simp⟩
  rw [headerWord_addFlag]
  by_cases same : object = o
  · simp [same]
  · simp [same, Ne.symm same]

theorem flag (memory : Memory) (object : Ref) :
    Marked memory (memory.addFlag object .finalizerReachable) [] [object] := by
  refine ⟨fun o => ?_, fun o => by simp⟩
  rw [headerWord_addFlag]
  by_cases same : object = o
  · simp [same]
  · simp [same, Ne.symm same]

theorem or_ite_append (mask word : Word) (first second : List Ref) (o : Ref) :
    (word ||| (if o ∈ first then mask else 0)) ||| (if o ∈ second then mask else 0) =
      word ||| (if o ∈ first ++ second then mask else 0) := by
  by_cases left : o ∈ first <;> by_cases right : o ∈ second <;>
    simp [left, right, UInt64.or_assoc]

theorem trans (first : Marked before middle found due) (second : Marked middle after found' due') :
    Marked before after (found ++ found') (due ++ due') := by
  refine ⟨fun o => ?_, fun o => (second.payload o).trans (first.payload o)⟩
  rw [second.headerWord, first.headerWord, ← or_ite_append, ← or_ite_append]
  simp only [UInt64.or_assoc]
  congr 2
  rw [← UInt64.or_assoc, UInt64.or_comm (if o ∈ found then _ else _), UInt64.or_assoc]

theorem typeId (h : Marked before after found due) (o : Ref) :
    (after.header o).typeId = (before.header o).typeId := by
  rw [header, h.headerWord]
  have keep (word : Word) (flag : Flags) (p : Prop) [Decidable p] :
      (Header.decode (word ||| (if p then flag.mask else 0))).typeId =
        (Header.decode word).typeId := by
    split
    · exact Header.typeId_or_mask ..
    · rw [UInt64.or_zero]
  rw [keep, keep, header]

theorem isSurviving (h : Marked before after found due) (o : Ref) :
    after.isSurviving o = (decide (o ∈ found) || before.isSurviving o) := by
  simp only [Memory.isSurviving, flags, header, h.headerWord, Flags.surviving_eq_single,
    Flags.finalizerReachable_eq_single]
  have due' (word : Word) (p : Prop) [Decidable p] :
      (Header.decode (word ||| (if p then (Flags.single 2).mask else 0))).flags.contains
        (.single 0) = (Header.decode word).flags.contains (.single 0) := by
    split
    · rw [Header.contains_single_or_mask _ (by decide)]
      rfl
    · rw [UInt64.or_zero]
  by_cases member : o ∈ found
  · rw [if_pos member, Header.contains_single_or_mask _ (by decide)]
    simp [member]
  · rw [if_neg member, UInt64.or_zero, due']
    simp [member]

theorem finalizerReachable (h : Marked before after found due) (o : Ref) :
    (after.flags o).contains .finalizerReachable =
      (decide (o ∈ due) || (before.flags o).contains .finalizerReachable) := by
  simp only [flags, header, h.headerWord, Flags.surviving_eq_single,
    Flags.finalizerReachable_eq_single]
  have found' (word : Word) (p : Prop) [Decidable p] :
      (Header.decode (word ||| (if p then (Flags.single 0).mask else 0))).flags.contains
        (.single 2) = (Header.decode word).flags.contains (.single 2) := by
    split
    · rw [Header.contains_single_or_mask _ (by decide)]
      rfl
    · rw [UInt64.or_zero]
  rw [found']
  by_cases member : o ∈ due
  · rw [if_pos member, Header.contains_single_or_mask _ (by decide)]
    simp [member]
  · rw [if_neg member, UInt64.or_zero]
    simp [member]

theorem children (h : Marked before after found due) (o : Ref) :
    types.children after o = types.children before o :=
  TypeTable.children_congr (h.typeId o) (h.payload o)

theorem sameShape (h : Marked before after found due) (o : Ref) :
    types.SameShape before after o :=
  .of_payload (h.typeId o) (h.payload o)

end Memory.Marked

end Reclaim
