import Mathlib.Tactic.Tauto
import Reclaim.Proofs.Cycle.Walk

namespace Reclaim

namespace TypeTable

variable {types : TypeTable} {memory other : Memory} {object : Ref} {view : View}
  {children : List Ref}

theorem object_of_view (seen : types.view memory object = .ok view) : view.object = object := by
  simp only [TypeTable.view, bind, Except.bind, pure, Except.pure] at seen
  split at seen
  · cases seen
  · split at seen
    · cases seen
    · cases seen
      rfl

theorem view_congr (typeId : (other.header object).typeId = (memory.header object).typeId)
    (payload : other.payload object = memory.payload object) :
    types.view other object = types.view memory object := by
  simp only [TypeTable.view, typeId, payload]

theorem children_eq_ok : types.children memory object = .ok children ↔
    ∃ view descriptor, types.view memory object = .ok view ∧
      types.get? view.typeId = some descriptor ∧ descriptor.trace view = .ok children := by
  simp only [TypeTable.children, bind, Except.bind]
  cases types.view memory object with
  | error fault => simp
  | ok view =>
    simp only [expect]
    cases known : types.get? view.typeId with
    | none => simp [known]
    | some descriptor => simp [known]

end TypeTable

namespace Walk

/-- The loop of a walk until its stack is empty, with the views that trace callbacks are called
    with, in the order of the calls. -/
inductive Traced (types : TypeTable) : Walk → List Ref → List View → Walk → Prop
  | done (walk : Walk) : Traced types walk [] [] walk
  | skip {walk after : Walk} {object : Ref} {stack : List Ref} {calls : List View}
      (surviving : walk.memory.isSurviving object = true)
      (rest : Traced types walk stack calls after) :
      Traced types walk (object :: stack) calls after
  | call {walk after : Walk} {object : Ref} {stack children : List Ref} {calls : List View}
      {view : View} {descriptor : Descriptor} (fresh : walk.memory.isSurviving object = false)
      (seen : types.view (walk.visit object).memory object = .ok view)
      (known : types.get? view.typeId = some descriptor)
      (reported : descriptor.trace view = .ok children)
      (rest : Traced types (walk.visit object) (children.reverse ++ stack) calls after) :
      Traced types walk (object :: stack) (view :: calls) after

variable {types : TypeTable} {walk after : Walk} {stack : List Ref} {calls : List View}

theorem Traced.run_eq (h : Traced types walk stack calls after) :
    run types walk stack = .ok () after := by
  induction h with
  | done => exact run_nil ..
  | skip surviving _ ih => rw [run_cons_of_surviving surviving, ih]
  | call fresh seen known reported _ ih =>
    have children := TypeTable.children_eq_ok.mpr ⟨_, _, seen, known, reported⟩
    rw [run_cons_of_not_surviving fresh, children]
    exact ih

theorem exists_traced (ran : run types walk stack = .ok () after) :
    ∃ calls, Traced types walk stack calls after := by
  -- as for `exists_ran`: a visit leaves fewer unmarked addresses, anything else a shorter stack
  induction bound : unmarked walk.memory using Nat.strongRecOn generalizing walk stack with
  | ind n ih =>
    subst bound
    induction stack with
    | nil =>
      rw [run_nil] at ran
      cases ran
      exact ⟨[], .done _⟩
    | cons object stack stackIh =>
      cases surviving : walk.memory.isSurviving object with
      | true =>
        rw [run_cons_of_surviving surviving] at ran
        obtain ⟨calls, rest⟩ := stackIh ran
        exact ⟨calls, rest.skip surviving⟩
      | false =>
        rw [run_cons_of_not_surviving surviving] at ran
        split at ran
        · cases ran
        · rename_i children reported
          obtain ⟨view, descriptor, seen, known, reported⟩ := TypeTable.children_eq_ok.mp reported
          have less : unmarked (walk.visit object).memory < unmarked walk.memory :=
            unmarked_mark_lt surviving
          obtain ⟨calls, rest⟩ := ih _ less ran rfl
          exact ⟨view :: calls, .call surviving seen known reported rest⟩

theorem run_eq_ok_iff : run types walk stack = .ok () after ↔
    ∃ calls, Traced types walk stack calls after :=
  ⟨exists_traced, fun ⟨_, traced⟩ => traced.run_eq⟩

theorem Traced.unique {other : Walk} {others : List View} (h : Traced types walk stack calls after)
    (h' : Traced types walk stack others other) : others = calls := by
  induction h generalizing others with
  | done => cases h'; rfl
  | skip surviving _ ih =>
    cases h' with
    | skip _ rest => exact ih rest
    | call fresh => simp [surviving] at fresh
  | call fresh seen known reported _ ih =>
    cases h' with
    | skip surviving => simp [fresh] at surviving
    | call _ seen' known' reported' rest =>
      rw [seen] at seen'
      cases seen'
      rw [known] at known'
      cases known'
      rw [reported] at reported'
      cases reported'
      rw [ih rest]

theorem Traced.marked_eq (h : Traced types walk stack calls after) :
    after.marked = (calls.map View.object).reverse ++ walk.marked := by
  induction h with
  | done => rfl
  | skip _ _ ih => exact ih
  | call _ seen _ _ _ ih =>
    rw [ih, List.map_cons, TypeTable.object_of_view seen]
    simp [Walk.visit]

theorem Traced.views (h : Traced types walk stack calls after) :
    ∀ view ∈ calls, types.view walk.memory view.object = .ok view := by
  induction h with
  | done => exact nofun
  | skip _ _ ih => exact ih
  | @call walk _ object _ _ _ view _ _ seen _ _ _ ih =>
    have same (o : Ref) : types.view (walk.visit object).memory o = types.view walk.memory o :=
      TypeTable.view_congr (by simp [Walk.visit]) (by simp [Walk.visit])
    intro other member
    rcases List.mem_cons.mp member with rfl | member
    · rw [TypeTable.object_of_view seen, ← same]
      exact seen
    · rw [← same]
      exact ih other member

theorem Ran.map_object {found : List Ref} {memory : Memory}
    (ran : Ran types walk stack found memory) {after : Walk}
    (traced : Traced types walk stack calls after) : calls.map View.object = found := by
  have same := traced.run_eq.symm.trans ran.run
  have marked := traced.marked_eq
  cases same
  exact (List.reverse_inj.mp (List.append_cancel_right marked)).symm

theorem Finds.mono {memory : Memory} {more : List Ref} {o : Ref} (sub : stack ⊆ more)
    (h : Finds types memory stack o) : Finds types memory more o := by
  induction h with
  | start member fresh => exact .start (sub member) fresh
  | child _ reported member fresh ih => exact ih.child reported member fresh

theorem finds_append_iff {memory marked : Memory} {first second found : List Ref}
    (marks : memory.Marked marked found [])
    (found_iff : ∀ o, o ∈ found ↔ Finds types memory first o) (o : Ref) :
    Finds types memory (first ++ second) o ↔ o ∈ found ∨ Finds types marked second o := by
  have unmarked (o : Ref) : marked.isSurviving o = false ↔
      o ∉ found ∧ memory.isSurviving o = false := by
    rw [marks.isSurviving]
    simp
  constructor
  · intro h
    induction h with
    | @start o member fresh =>
      by_cases early : o ∈ found
      · exact .inl early
      · rcases List.mem_append.mp member with member | member
        · exact absurd ((found_iff o).mpr (.start member fresh)) early
        · exact .inr (.start member ((unmarked o).mpr ⟨early, fresh⟩))
    | @child _ o _ _ reported member fresh ih =>
      by_cases early : o ∈ found
      · exact .inl early
      · rcases ih with ih | ih
        -- the first walk leaves no unmarked child of what it has found
        · exact absurd ((found_iff o).mpr (((found_iff _).mp ih).child reported member fresh)) early
        · right
          have late := (unmarked o).mpr ⟨early, fresh⟩
          exact ih.child ((marks.children _).trans reported) member late
  · rintro (early | late)
    · exact ((found_iff o).mp early).mono (List.subset_append_left first second)
    · induction late with
      | start member fresh =>
        exact .start (List.mem_append_right _ member) ((unmarked _).mp fresh).2
      | child _ reported member fresh ih =>
        exact ih.child ((marks.children _).symm.trans reported) member ((unmarked _).mp fresh).2

def MarksClosed (types : TypeTable) (memory : Memory) (live : List Ref) : Prop :=
  ∀ o ∈ live, memory.isSurviving o = true → ∀ children, types.children memory o = .ok children →
    ∀ c ∈ children, memory.isSurviving c = true

theorem isSurviving_or_finds_iff {memory : Memory} {live : List Ref}
    (closed : types.Closed memory live) (inside : ∀ o ∈ stack, o ∈ live)
    (marks : MarksClosed types memory live) (o : Ref) :
    memory.isSurviving o = true ∨ Finds types memory stack o ↔
      memory.isSurviving o = true ∨ types.Reachable memory stack o := by
  refine ⟨Or.imp_right Finds.reachable, Or.rec .inl fun reached => ?_⟩
  induction reached with
  | @start o member =>
    cases surviving : memory.isSurviving o with
    | true => exact .inl rfl
    | false => exact .inr (.start member surviving)
  | @child parent o _ above reported member ih =>
    -- closed marks stop a walk only where everything behind them is marked as well
    rcases ih with early | found
    · exact .inl (marks parent (closed.mem_of_reachable inside above) early _ reported o member)
    · cases surviving : memory.isSurviving o with
      | true => exact .inl rfl
      | false => exact .inr (found.child reported member surviving)

/-- What a walk does that calls trace callbacks with certain views. -/
structure Visits (types : TypeTable) (walk : Walk) (stack : List Ref) (calls : List View)
    (after : Walk) : Prop where
  called : ∀ o, o ∈ calls.map View.object ↔ Finds types walk.memory stack o
  once : (calls.map View.object).Nodup
  views : ∀ view ∈ calls, types.view walk.memory view.object = .ok view
  isSurviving : ∀ o, after.memory.isSurviving o = true ↔
    walk.memory.isSurviving o = true ∨ Finds types walk.memory stack o
  headerWord : ∀ o, after.memory.headerWord o = walk.memory.headerWord o |||
    (if o ∈ calls.map View.object then Flags.surviving.mask else 0)
  payload : ∀ o, after.memory.payload o = walk.memory.payload o
  total : after.marked.length = walk.marked.length + calls.length

theorem Ran.visits {found : List Ref} {memory : Memory} (ran : Ran types walk stack found memory)
    (traced : Traced types walk stack calls { memory, marked := found.reverse ++ walk.marked }) :
    Visits types walk stack calls { memory, marked := found.reverse ++ walk.marked } := by
  have objects := ran.map_object traced
  have found_iff := ran.mem_iff
  constructor
  · rw [objects]
    exact found_iff
  · rw [objects]
    exact ran.nodup
  · exact traced.views
  · intro o
    rw [ran.marked.isSurviving, Bool.or_eq_true, decide_eq_true_eq, found_iff, or_comm]
  · intro o
    rw [objects, ran.marked.headerWord]
    simp
  · exact ran.marked.payload
  · rw [← List.length_map View.object, objects]
    simp [Nat.add_comm]

structure SameMarks (first second : Walk) : Prop where
  headerWord : ∀ o, second.memory.headerWord o = first.memory.headerWord o
  payload : ∀ o, second.memory.payload o = first.memory.payload o
  total : second.marked.length = first.marked.length

theorem Ran.sameMarks {first second found early late : List Ref} {memory middle last : Memory}
    (whole : Ran types walk stack found memory) (same : ∀ o, o ∈ first ++ second ↔ o ∈ stack)
    (ran : Ran types walk first early middle)
    (rest : Ran types { memory := middle, marked := early.reverse ++ walk.marked } second late
      last) :
    SameMarks { memory, marked := found.reverse ++ walk.marked }
      { memory := last, marked := late.reverse ++ (early.reverse ++ walk.marked) } := by
  have found_iff (o : Ref) : o ∈ found ↔ o ∈ early ++ late := by
    rw [List.mem_append, rest.mem_iff, whole.mem_iff, ← finds_append_iff ran.marked ran.mem_iff]
    exact ⟨Finds.mono fun o => (same o).mpr, Finds.mono fun o => (same o).mp⟩
  have both := ran.marked.trans rest.marked
  have apart : (early ++ late).Nodup := by
    refine List.nodup_append.mpr ⟨ran.nodup, rest.nodup, ?_⟩
    rintro o member _ again rfl
    have unmarked := ((rest.mem_iff o).mp again).unmarked
    rw [ran.marked.isSurviving] at unmarked
    simp [member] at unmarked
  constructor
  · intro o
    rw [both.headerWord, whole.marked.headerWord]
    simp only [found_iff]
    rfl
  · exact fun o => (both.payload o).trans (whole.marked.payload o).symm
  · have count := ((List.perm_ext_iff_of_nodup whole.nodup apart).mpr found_iff).length_eq
    simp only [List.length_append, List.length_reverse] at count ⊢
    omega

theorem exists_ran_of_closed {live : List Ref} (walk : Walk)
    (closed : types.Closed walk.memory live) (inside : ∀ o ∈ stack, o ∈ live) :
    ∃ found memory, Ran types walk stack found memory := by
  apply exists_ran
  intro o found
  obtain ⟨children, reported, _⟩ := closed o (closed.mem_of_reachable inside found.reachable)
  exact ⟨children, reported⟩

/-- A walk over live objects ends, whatever is marked and whatever is on its stack, and visits what
    it finds along unmarked objects. If the marks were closed under references then everything that
    the stack reaches is marked in the end, and in any case two batches do what one does. -/
theorem run_visits {live : List Ref} (walk : Walk) (stack : List Ref)
    (closed : types.Closed walk.memory live) (inside : ∀ o ∈ stack, o ∈ live) :
    ∃ calls after, run types walk stack = .ok () after ∧
      (∀ others, Traced types walk stack others after ↔ others = calls) ∧
      Visits types walk stack calls after ∧
      (MarksClosed types walk.memory live → ∀ o, after.memory.isSurviving o = true ↔
        walk.memory.isSurviving o = true ∨ types.Reachable walk.memory stack o) ∧
      ∀ first second, (∀ o, o ∈ first ++ second ↔ o ∈ stack) → ∃ middle last,
        run types walk first = .ok () middle ∧ run types middle second = .ok () last ∧
          SameMarks after last := by
  obtain ⟨found, memory, ran⟩ := exists_ran_of_closed walk closed inside
  obtain ⟨calls, traced⟩ := exists_traced ran.run
  have visits := ran.visits traced
  refine ⟨calls, _, ran.run, ?_, visits, ?_, ?_⟩
  · intro others
    exact ⟨traced.unique, fun same => same ▸ traced⟩
  · intro marks o
    rw [visits.isSurviving, isSurviving_or_finds_iff closed inside marks]
  · intro first second same
    have among (o : Ref) (member : o ∈ first ++ second) : o ∈ live := inside o ((same o).mp member)
    obtain ⟨early, middle, ran'⟩ := exists_ran_of_closed walk closed fun o member =>
      among o (List.mem_append_left _ member)
    have closed' : types.Closed middle live := by
      intro o member
      rw [ran'.marked.children]
      exact closed o member
    obtain ⟨late, last, rest⟩ := exists_ran_of_closed
      { memory := middle, marked := early.reverse ++ walk.marked } closed' fun o member =>
        among o (List.mem_append_right _ member)
    exact ⟨_, _, ran'.run, rest.run, ran.sameMarks same ran' rest⟩

def fiveNodes : List Ref :=
  [.lowest, .placed 48, .placed 80, .placed 112, .placed 144]

def midway : Walk where
  memory := ((((({} : Memory).writeWord .lowest 0 48).writeWord (.placed 48) 0 16).writeWord
    (.placed 80) 0 80).writeWord (.placed 112) 0 144).addFlag (.placed 112) .surviving
  marked := [.placed 112]

def midwayStack : List Ref :=
  [.lowest, .placed 48, .lowest, .placed 80, .placed 112]

theorem closed_midway : TypeTable.nodes.Closed midway.memory fiveNodes := by
  unfold TypeTable.Closed
  decide +kernel

theorem marked_midway : ∃ after, run .nodes midway midwayStack = .ok () after ∧
    after.marked = [.placed 80, .placed 48, .lowest, .placed 112] :=
  ⟨_, rfl, rfl⟩

theorem run_visits_midway :
    TypeTable.nodes.Closed midway.memory fiveNodes ∧ (∀ o ∈ midwayStack, o ∈ fiveNodes) ∧
    ∃ calls after middle last, run .nodes midway midwayStack = .ok () after ∧
      Traced .nodes midway midwayStack calls after ∧ Visits .nodes midway midwayStack calls after ∧
      calls.map View.object = [.lowest, .placed 48, .placed 80] ∧
      run .nodes midway [.placed 112, .placed 80] = .ok () middle ∧
      run .nodes middle [.placed 48, .lowest] = .ok () last ∧ SameMarks after last := by
  have inside : ∀ o ∈ midwayStack, o ∈ fiveNodes := by decide
  obtain ⟨calls, after, ran, courses, visits, -, batches⟩ :=
    run_visits midway midwayStack closed_midway inside
  have traced := (courses calls).mpr rfl
  obtain ⟨other, again, marked⟩ := marked_midway
  cases ran.symm.trans again
  have objects : (calls.map View.object).reverse ++ [.placed 112] = _ :=
    traced.marked_eq.symm.trans marked
  obtain ⟨middle, last, first, second, same⟩ :=
    batches [.placed 112, .placed 80] [.placed 48, .lowest] (by
      intro o
      simp only [midwayStack, List.cons_append, List.nil_append, List.mem_cons, List.not_mem_nil]
      tauto)
  refine ⟨closed_midway, inside, calls, after, middle, last, ran, traced, visits, ?_, first, second,
    same⟩
  exact List.reverse_inj.mp (List.append_cancel_right objects)

end Walk

end Reclaim
