import Mathlib.Data.List.Induction
import Mathlib.Data.List.Nodup
import Reclaim.Proofs.Run.Step

namespace Reclaim

variable {σ : Type}

namespace Happening

def object : Happening σ → Ref
  | allocated object _ _ => object
  | scheduled entry => entry.object
  | called entry _ => entry.object
  | returned entry => entry.object
  | freed object => object
  | discarded object => object

def isBoundary : Happening σ → Bool
  | allocated _ _ _ | freed _ | discarded _ => true
  | _ => false

def isAllocation : Happening σ → Bool
  | allocated _ _ _ => true
  | _ => false

def own (o : Ref) (history : List (Happening σ)) : List (Happening σ) :=
  history.filter fun happening => happening.object = o

theorem own_append (o : Ref) (first second : List (Happening σ)) :
    own o (first ++ second) = own o first ++ own o second :=
  List.filter_append ..

theorem own_singleton {o : Ref} {happening : Happening σ} (about : happening.object = o) :
    own o [happening] = [happening] := by
  rw [own, List.filter_singleton, decide_eq_true about]
  rfl

theorem own_singleton_of_ne {o : Ref} {happening : Happening σ} (other : happening.object ≠ o) :
    own o [happening] = [] := by
  rw [own, List.filter_singleton, decide_eq_false other]
  rfl

theorem own_scheduled (o : Ref) (entries : List FinalizerEntry) :
    own o (entries.map fun entry => (scheduled entry : Happening σ)) =
      (entries.filter fun entry => entry.object = o).map .scheduled := by
  rw [own, List.filter_map]
  rfl

theorem own_map_of_nodup (o : Ref) {happening : Ref → Happening σ}
    (about : ∀ object, (happening object).object = object) {objects : List Ref}
    (nodup : objects.Nodup) :
    own o (objects.map happening) = if o ∈ objects then [happening o] else [] := by
  have same : ((fun h : Happening σ => decide (h.object = o)) ∘ happening) =
      fun object => decide (object = o) := by
    funext object
    simp only [Function.comp_apply, about]
  rw [own, List.filter_map, same, List.filter_eq, nodup.count]
  split <;> rfl

end Happening

inductive Progress where
  | pending
  | due
  | running
  | finished
  deriving DecidableEq

inductive Life (σ : Type) where
  | absent
  | plain
  | finalizable (progress : Progress) (entry : FinalizerEntry) (callback : Ref → Program σ)

namespace Life

def isDone : Life σ → Prop
  | absent => False
  | plain => True
  | finalizable progress _ _ => progress = .finished

def isQuiet : Life σ → Prop
  | absent => False
  | plain => True
  | finalizable progress _ _ => progress = .pending ∨ progress = .finished

inductive Move (o : Ref) : Life σ → Happening σ → Life σ → Prop
  | allocate {request : Request} {callback : Option (Ref → Program σ)}
      (unwanted : request.finalizer = none) : Move o absent (.allocated o request callback) plain
  | register {request : Request} {finalizer : Finalizer} {callback : Ref → Program σ}
      (wanted : request.finalizer = some finalizer) :
      Move o absent (.allocated o request (some callback))
        (finalizable .pending ⟨o, finalizer.queue, finalizer.light⟩ callback)
  | schedule (entry : FinalizerEntry) (callback : Ref → Program σ) :
      Move o (finalizable .pending entry callback) (.scheduled entry)
        (finalizable .due entry callback)
  | call (entry : FinalizerEntry) (callback : Ref → Program σ) :
      Move o (finalizable .due entry callback) (.called entry callback)
        (finalizable .running entry callback)
  | return (entry : FinalizerEntry) (callback : Ref → Program σ) :
      Move o (finalizable .running entry callback) (.returned entry)
        (finalizable .finished entry callback)
  | free {life : Life σ} (done : life.isDone) : Move o life (.freed o) absent
  | discard {life : Life σ} (quiet : life.isQuiet) : Move o life (.discarded o) absent

inductive Moves (o : Ref) : Life σ → List (Happening σ) → Life σ → Prop
  | nil (life : Life σ) : Moves o life [] life
  | cons {life middle last : Life σ} {happening : Happening σ} {rest : List (Happening σ)}
      (move : Move o life happening middle) (moves : Moves o middle rest last) :
      Moves o life (happening :: rest) last

variable {o : Ref} {life last : Life σ} {entry : FinalizerEntry} {callback : Ref → Program σ}

theorem moves_append {first second : List (Happening σ)} :
    Moves o life (first ++ second) last ↔
      ∃ middle, Moves o life first middle ∧ Moves o middle second last := by
  induction first generalizing life with
  | nil =>
    constructor
    · intro moves
      exact ⟨life, .nil life, moves⟩
    · rintro ⟨middle, first, second⟩
      cases first
      exact second
  | cons happening rest ih =>
    constructor
    · intro moves
      cases moves with
      | cons move moves =>
        obtain ⟨middle, first, second⟩ := ih.mp moves
        exact ⟨middle, .cons move first, second⟩
    · rintro ⟨middle, first, second⟩
      cases first with
      | cons move moves => exact .cons move (ih.mpr ⟨middle, moves, second⟩)

theorem moves_singleton {happening : Happening σ} (moves : Moves o life [happening] last) :
    Move o life happening last := by
  cases moves with
  | cons move moves =>
    cases moves
    exact move

section Courses

variable {later : List (Happening σ)}

theorem Moves.of_absent (moves : Moves o absent later last)
    (fresh : ∀ happening ∈ later, happening.isAllocation = false) : later = [] := by
  cases moves with
  | nil => rfl
  | cons move moves =>
    have first := fresh _ List.mem_cons_self
    cases move with
    | allocate => cases first
    | register => cases first
    | free done => exact done.elim
    | discard quiet => exact quiet.elim

theorem Moves.of_done (moves : Moves o life later last) (done : life.isDone)
    (fresh : ∀ happening ∈ later, happening.isAllocation = false) :
    later <+: [.freed o] ∨ later <+: [.discarded o] := by
  cases moves with
  | nil => exact .inl List.nil_prefix
  | cons move moves =>
    have rest := (List.forall_mem_cons.mp fresh).2
    cases move with
    | allocate => exact done.elim
    | register => exact done.elim
    | schedule => cases done
    | call => cases done
    | «return» => cases done
    | free =>
      rw [moves.of_absent rest]
      exact .inl List.prefix_rfl
    | discard =>
      rw [moves.of_absent rest]
      exact .inr List.prefix_rfl

theorem Moves.of_running (moves : Moves o (finalizable .running entry callback) later last)
    (fresh : ∀ happening ∈ later, happening.isAllocation = false) :
    later <+: [.returned entry, .freed o] ∨ later <+: [.returned entry, .discarded o] := by
  cases moves with
  | nil => exact .inl List.nil_prefix
  | cons move moves =>
    have rest := (List.forall_mem_cons.mp fresh).2
    cases move with
    | «return» =>
      rw [List.prefix_cons_inj, List.prefix_cons_inj]
      exact moves.of_done rfl rest
    | free done => cases done
    | discard quiet => rcases quiet with quiet | quiet <;> cases quiet

theorem Moves.of_due (moves : Moves o (finalizable .due entry callback) later last)
    (fresh : ∀ happening ∈ later, happening.isAllocation = false) :
    later <+: [.called entry callback, .returned entry, .freed o] ∨
      later <+: [.called entry callback, .returned entry, .discarded o] := by
  cases moves with
  | nil => exact .inl List.nil_prefix
  | cons move moves =>
    have rest := (List.forall_mem_cons.mp fresh).2
    cases move with
    | call =>
      rw [List.prefix_cons_inj, List.prefix_cons_inj]
      exact moves.of_running rest
    | free done => cases done
    | discard quiet => rcases quiet with quiet | quiet <;> cases quiet

theorem Moves.of_pending (moves : Moves o (finalizable .pending entry callback) later last)
    (fresh : ∀ happening ∈ later, happening.isAllocation = false) :
    later <+: [.scheduled entry, .called entry callback, .returned entry, .freed o] ∨
      later <+: [.scheduled entry, .called entry callback, .returned entry, .discarded o] ∨
      later <+: [.discarded o] := by
  cases moves with
  | nil => exact .inl List.nil_prefix
  | cons move moves =>
    have rest := (List.forall_mem_cons.mp fresh).2
    cases move with
    | schedule =>
      rcases moves.of_due rest with freed | discarded
      · exact .inl ((List.prefix_cons_inj _).mpr freed)
      · exact .inr (.inl ((List.prefix_cons_inj _).mpr discarded))
    | free done => cases done
    | discard =>
      rw [moves.of_absent rest]
      exact .inr (.inr List.prefix_rfl)

/-- What can happen to an object after it is allocated. Without a finalizer it is freed or dropped.
    With one, it is dropped before that is scheduled, or its finalizer is scheduled, called and
    returns, each once, before it is freed or dropped; the callback is the one that its queue had
    when the object was allocated. -/
def Course (o : Ref) (request : Request) (given : Option (Ref → Program σ))
    (later : List (Happening σ)) : Prop :=
  match request.finalizer with
  | none => later <+: [.freed o] ∨ later <+: [.discarded o]
  | some finalizer => ∃ entry callback,
    entry = ⟨o, finalizer.queue, finalizer.light⟩ ∧ given = some callback ∧
      (later <+: [.scheduled entry, .called entry callback, .returned entry, .freed o] ∨
        later <+: [.scheduled entry, .called entry callback, .returned entry, .discarded o] ∨
        later <+: [.discarded o])

theorem Moves.course {past rest : List (Happening σ)} {request : Request}
    {given : Option (Ref → Program σ)}
    (moves : Moves o absent (past ++ .allocated o request given :: (later ++ rest)) last)
    (fresh : ∀ happening ∈ later, happening.isAllocation = false) :
    Course o request given later := by
  obtain ⟨middle, _, moves⟩ := moves_append.mp moves
  cases moves with
  | cons move moves =>
    obtain ⟨_, moves, _⟩ := moves_append.mp moves
    cases move with
    | allocate unwanted =>
      rw [Course, unwanted]
      exact moves.of_done trivial fresh
    | @register request finalizer callback wanted =>
      rw [Course, wanted]
      exact ⟨_, callback, rfl, rfl, moves.of_pending fresh⟩

end Courses

def Suits (o : Ref) (request : Request) (given : Option (Ref → Program σ)) : Life σ → Prop
  | absent => False
  | plain => request.finalizer = none
  | finalizable _ entry callback => ∃ finalizer, request.finalizer = some finalizer ∧
    entry = ⟨o, finalizer.queue, finalizer.light⟩ ∧ given = some callback

theorem Move.suits {middle : Life σ} {happening : Happening σ}
    (move : Move o middle happening last) (inner : happening.isBoundary = false)
    {request : Request} {given : Option (Ref → Program σ)} (suits : middle.Suits o request given) :
    last.Suits o request given := by
  cases move with
  | allocate => cases inner
  | register => cases inner
  | free => cases inner
  | discard => cases inner
  | schedule => exact suits
  | call => exact suits
  | «return» => exact suits

theorem Moves.exists_birth {history : List (Happening σ)} (moves : Moves o absent history last)
    (alive : last ≠ absent) :
    ∃ past request given later, history = past ++ .allocated o request given :: later ∧
      (∀ happening ∈ later, happening.isBoundary = false) ∧ last.Suits o request given := by
  -- from the end of the history, since the last allocation is the one that counts
  induction history using List.reverseRecOn generalizing last with
  | nil =>
    cases moves
    exact absurd rfl alive
  | append_singleton history happening ih =>
    obtain ⟨middle, moves, move⟩ := moves_append.mp moves
    have move := moves_singleton move
    have goes_on (inner : happening.isBoundary = false) (living : middle ≠ absent) :
        ∃ past request given later,
          history ++ [happening] = past ++ .allocated o request given :: later ∧
            (∀ happening ∈ later, happening.isBoundary = false) ∧
            last.Suits o request given := by
      obtain ⟨past, request, given, later, rfl, quiet, suits⟩ := ih moves living
      refine ⟨past, request, given, later ++ [happening], by simp, ?_, move.suits inner suits⟩
      intro other member
      rcases List.mem_append.mp member with old | new
      · exact quiet other old
      · rw [List.mem_singleton.mp new]
        exact inner
    cases move with
    | @allocate request given unwanted =>
      exact ⟨history, request, given, [], rfl, (fun _ member => nomatch member), unwanted⟩
    | @register request finalizer callback wanted =>
      exact ⟨history, request, some callback, [], rfl, (fun _ member => nomatch member), finalizer,
        wanted, rfl, rfl⟩
    | schedule => exact goes_on rfl (by simp)
    | call => exact goes_on rfl (by simp)
    | «return» => exact goes_on rfl (by simp)
    | free => exact absurd rfl alive
    | discard => exact absurd rfl alive

end Life

end Reclaim
