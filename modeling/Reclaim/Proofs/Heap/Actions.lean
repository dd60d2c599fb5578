import Reclaim.Heap.Basic

namespace Reclaim

section

variable {ε τ α β γ : Type} {x : EStateM ε τ α} {f : α → EStateM ε τ β} {s t u : τ} {a : α} {b : β}
  {e : ε}

theorem bind_of_ok (h : x s = .ok a t) : (x >>= f) s = f a t := by
  simp only [bind, EStateM.bind, h]

theorem bind_of_error (h : x s = .error e t) : (x >>= f) s = .error e t := by
  simp only [bind, EStateM.bind, h]

theorem bind_congr_left {y : EStateM ε τ α} (h : x s = y t) : (x >>= f) s = (y >>= f) t := by
  simp only [bind, EStateM.bind, h]

theorem get_bind (g : τ → EStateM ε τ β) : ((get : EStateM ε τ τ) >>= g) s = g s s := rfl

theorem modify_bind (change : τ → τ) (next : EStateM ε τ β) :
    ((modify change : EStateM ε τ Unit) >>= fun _ => next) s = next (change s) := rfl

theorem modify_apply (change : τ → τ) :
    (modify change : EStateM ε τ Unit) s = .ok () (change s) := rfl

theorem modifyGet_apply (change : τ → α × τ) :
    (modifyGet change : EStateM ε τ α) s = .ok (change s).1 (change s).2 := rfl

theorem pure_apply (a : α) : (pure a : EStateM ε τ α) s = .ok a s := rfl

theorem bind_eq_ok : (x >>= f) s = .ok b u ↔ ∃ a t, x s = .ok a t ∧ f a t = .ok b u := by
  constructor
  · intro h
    cases step : x s with
    | ok a t => exact ⟨a, t, rfl, (bind_of_ok step).symm.trans h⟩
    | error e t =>
      rw [bind_of_error step] at h
      cases h
  · rintro ⟨a, t, step, rest⟩
    exact (bind_of_ok step).trans rest

theorem bind_eq_error :
    (x >>= f) s = .error e u ↔
      x s = .error e u ∨ ∃ a t, x s = .ok a t ∧ f a t = .error e u := by
  constructor
  · intro h
    cases step : x s with
    | ok a t => exact .inr ⟨a, t, rfl, (bind_of_ok step).symm.trans h⟩
    | error e' t =>
      rw [bind_of_error step] at h
      cases h
      exact .inl rfl
  · rintro (step | ⟨a, t, step, rest⟩)
    · exact bind_of_error step
    · exact (bind_of_ok step).trans rest

def Keeps (observe : τ → γ) (action : EStateM ε τ α) : Prop :=
  ∀ ⦃s a t⦄, action s = .ok a t → observe t = observe s

namespace Keeps

variable {observe : τ → γ}

theorem bind (first : Keeps observe x) (rest : ∀ a, Keeps observe (f a)) :
    Keeps observe (x >>= f) := by
  intro s b u run
  obtain ⟨a, t, ran, run⟩ := bind_eq_ok.mp run
  exact (rest a run).trans (first ran)

theorem pure (a : α) : Keeps observe (pure a : EStateM ε τ α) := by
  intro s _ t run
  cases run
  rfl

theorem get : Keeps observe (get : EStateM ε τ τ) := by
  intro s _ t run
  cases run
  rfl

theorem throw (e : ε) : Keeps observe (throw e : EStateM ε τ α) := by
  intro s _ t run
  cases run

theorem modify {change : τ → τ} (same : ∀ s, observe (change s) = observe s) :
    Keeps observe (modify change : EStateM ε τ Unit) := by
  intro s _ t run
  cases run
  exact same s

end Keeps

end

namespace Heap

variable {σ α : Type} {heap after : Heap σ} {read : Heap σ → Except Fault α} {action : HeapM σ α}
  {leave : Heap σ → Heap σ} {value : α}

theorem check_eq_ok : check read heap = .ok value after ↔ read heap = .ok value ∧ after = heap := by
  rw [check]
  cases read heap with
  | ok found =>
    simp only [EStateM.Result.ok.injEq, Except.ok.injEq]
    exact and_congr_right fun _ => eq_comm
  | error fault => simp

theorem check_eq_error {fault : Fault} :
    check read heap = .error fault after ↔ read heap = .error fault ∧ after = heap := by
  rw [check]
  cases read heap with
  | ok found => simp
  | error fault =>
    simp only [EStateM.Result.error.injEq, Except.error.injEq]
    exact and_congr_right fun _ => eq_comm

theorem check_of_ok (h : read heap = .ok value) : check read heap = .ok value heap :=
  check_eq_ok.mpr ⟨h, rfl⟩

theorem onFault_of_ok (h : action heap = .ok value after) :
    onFault leave action heap = .ok value after := by
  rw [onFault, h]

theorem onFault_of_error {fault : Fault} (h : action heap = .error fault after) :
    onFault leave action heap = .error fault (leave after) := by
  rw [onFault, h]

theorem onFault_eq_ok : onFault leave action heap = .ok value after ↔
    action heap = .ok value after := by
  rw [onFault]
  cases action heap <;> simp

theorem keeps_check {γ : Type} {observe : Heap σ → γ} (read : Heap σ → Except Fault α) :
    Keeps observe (check read) := by
  intro heap _ after run
  rw [(check_eq_ok.mp run).2]

theorem keeps_onFault {γ : Type} {observe : Heap σ → γ} (leave : Heap σ → Heap σ)
    (keeps : Keeps observe action) : Keeps observe (onFault leave action) := by
  intro heap value after run
  rw [onFault] at run
  split at run
  · rename_i ran
    cases run
    exact keeps ran
  · cases run

theorem log_eq_ok (entry : LogRecord) : log entry heap = .ok () (heap.record (.logged entry)) := rfl

end Heap

end Reclaim
