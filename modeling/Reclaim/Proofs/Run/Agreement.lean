import Mathlib.Tactic.Tauto
import Reclaim.Proofs.Run.Life
import Reclaim.Proofs.Run.Soundness

namespace Reclaim

variable {σ : Type}

def Ref.entriesIn (o : Ref) (entries : List FinalizerEntry) : List FinalizerEntry :=
  entries.filter fun entry => entry.object = o

namespace Ref

variable {o : Ref}

theorem entriesIn_append (first second : List FinalizerEntry) :
    o.entriesIn (first ++ second) = o.entriesIn first ++ o.entriesIn second :=
  List.filter_append ..

theorem entriesIn_eq_nil {entries : List FinalizerEntry} :
    o.entriesIn entries = [] ↔ o ∉ entries.map FinalizerEntry.object := by
  rw [entriesIn, List.filter_eq_nil_iff, List.mem_map, not_exists]
  simp only [decide_eq_true_eq, not_and]

theorem entriesIn_cons_self (entry : FinalizerEntry) (rest : List FinalizerEntry) :
    entry.object.entriesIn (entry :: rest) = entry :: entry.object.entriesIn rest := by
  rw [entriesIn, List.filter_cons_of_pos (by simp), entriesIn]

theorem entriesIn_cons_of_ne {entry : FinalizerEntry} (other : entry.object ≠ o)
    (rest : List FinalizerEntry) : o.entriesIn (entry :: rest) = o.entriesIn rest := by
  rw [entriesIn, List.filter_cons_of_neg (by simpa using other), entriesIn]

theorem entriesIn_entries_self (request : Request) :
    o.entriesIn (request.entries o) = request.entries o := by
  rw [entriesIn, List.filter_eq_self]
  intro entry member
  obtain ⟨finalizer, _, rfl⟩ := Request.mem_entries.mp member
  exact decide_eq_true rfl

theorem entriesIn_entries_of_ne (request : Request) {object : Ref} (other : object ≠ o) :
    o.entriesIn (request.entries object) = [] := by
  rw [entriesIn_eq_nil, List.mem_map]
  rintro ⟨entry, member, rfl⟩
  obtain ⟨finalizer, _, rfl⟩ := Request.mem_entries.mp member
  exact other rfl

end Ref

theorem Collector.queue_of_added {before after : Collector σ} {queue : QueueIndex}
    {callback : Ref → Program σ}
    (queues : ∃ added, after.queues.toList = before.queues.toList ++ added)
    (found : before.queues[queue.index]? = some callback) :
    after.queues[queue.index]? = some callback := by
  obtain ⟨added, queues⟩ := queues
  rw [← Array.getElem?_toList] at found ⊢
  obtain ⟨inside, _⟩ := List.getElem?_eq_some_iff.mp found
  rw [queues, List.getElem?_append_left inside]
  exact found

namespace Stage

def waiting : Stage σ → List FinalizerEntry
  | .code .outside _ => []
  | .code (.callback _ collection) _ => collection.waiting
  | .between collection => collection.waiting

def running : Stage σ → List FinalizerEntry
  | .code (.callback entry _) _ => [entry]
  | _ => []

end Stage

namespace Life

def entries (progress : Progress) : Life σ → List FinalizerEntry
  | finalizable reached entry _ => if reached = progress then [entry] else []
  | _ => []

def isFlagged : Life σ → Bool
  | finalizable progress _ _ => progress ≠ .pending
  | _ => false

/-- Whether a point of a run bears out the life of an object. -/
structure Agrees (collector : Collector σ) (stage : Stage σ) (o : Ref) (life : Life σ) : Prop where
  live : o ∈ collector.heap.live ↔ life ≠ absent
  registered : o.entriesIn collector.heap.finalizers.toList = life.entries .pending
  waiting : o.entriesIn stage.waiting = life.entries .due
  running : o.entriesIn stage.running = life.entries .running
  flagged : o ∈ collector.heap.live →
    (collector.heap.memory.flags o).contains .finalizerReachable = life.isFlagged
  callback : ∀ progress entry callback, life = finalizable progress entry callback →
    collector.queues[entry.queue.index]? = some callback

namespace Agrees

variable {before after : Collector σ} {stage next : Stage σ} {o : Ref} {life : Life σ}

theorem frame (agrees : Agrees before stage o life)
    (live : o ∈ after.heap.live ↔ o ∈ before.heap.live)
    (registered : o.entriesIn after.heap.finalizers.toList =
      o.entriesIn before.heap.finalizers.toList)
    (waiting : next.waiting = stage.waiting) (running : next.running = stage.running)
    (flags : o ∈ before.heap.live → after.heap.memory.flags o = before.heap.memory.flags o)
    (queues : ∃ added, after.queues.toList = before.queues.toList ++ added) :
    Agrees after next o life where
  live := live.trans agrees.live
  registered := registered.trans agrees.registered
  waiting := waiting ▸ agrees.waiting
  running := running ▸ agrees.running
  flagged := by
    intro member
    have member := live.mp member
    rw [flags member]
    exact agrees.flagged member
  callback := by
    intro progress entry callback same
    exact Collector.queue_of_added queues (agrees.callback progress entry callback same)

theorem eq_absent (agrees : Agrees before stage o life) (dead : o ∉ before.heap.live) :
    life = absent := by
  by_contra alive
  exact dead (agrees.live.mpr alive)

variable [RawMemory σ]

theorem granted_self {request : Request} {cost : Word} {descriptor : Descriptor}
    (agrees : Agrees before stage o life) (dead : o ∉ before.heap.live)
    (admitted : request.Admitted before.heap.types before.queues.size cost descriptor)
    (h : before.heap.Granted after.heap request cost o) (waiting : next.waiting = stage.waiting)
    (running : next.running = stage.running)
    (queues : ∃ added, after.queues.toList = before.queues.toList ++ added) :
    ∃ begun, Moves o life (Happening.own o (Happening.ofAnswer before request (.ok o))) begun ∧
      Agrees after next o begun := by
  -- the address may have been used before, but whatever lived there has no part in this life
  obtain rfl := agrees.eq_absent dead
  have born : o ∈ after.heap.live := (h.mem_live o).mpr (.inr rfl)
  have registered : o.entriesIn after.heap.finalizers.toList = request.entries o := by
    rw [h.finalizers, Ref.entriesIn_append, agrees.registered, Ref.entriesIn_entries_self]
    rfl
  have unflagged : (after.heap.memory.flags o).contains .finalizerReachable = false := by
    rw [h.flags]
    cases request.isExternal <;> decide
  have own (given : Option (Ref → Program σ)) :
      Happening.own o [Happening.allocated o request given] = [.allocated o request given] :=
    Happening.own_singleton rfl
  rw [Happening.ofAnswer, own]
  cases wanted : request.finalizer with
  | none =>
    refine ⟨plain, .cons (.allocate wanted) (.nil _), ?_⟩
    exact {
      live := iff_of_true born (by simp)
      registered := by
        rw [registered, Request.entries, wanted]
        rfl
      waiting := waiting ▸ agrees.waiting
      running := running ▸ agrees.running
      flagged := fun _ => unflagged
      callback := by
        intro progress entry callback same
        cases same }
  | some finalizer =>
    have inside := admitted.queue finalizer wanted
    have found := Array.getElem?_eq_getElem inside
    rw [Option.bind_some, found]
    refine ⟨_, .cons (.register wanted) (.nil _), ?_⟩
    exact {
      live := iff_of_true born (by simp)
      registered := by
        rw [registered, Request.entries, wanted]
        rfl
      waiting := waiting ▸ agrees.waiting
      running := running ▸ agrees.running
      flagged := fun _ => unflagged
      callback := by
        intro progress entry callback same
        cases same
        exact Collector.queue_of_added queues found }

theorem granted_other {request : Request} {cost : Word} {object : Ref} (other : object ≠ o)
    (agrees : Agrees before stage o life) (h : before.heap.Granted after.heap request cost object)
    (waiting : next.waiting = stage.waiting) (running : next.running = stage.running)
    (queues : ∃ added, after.queues.toList = before.queues.toList ++ added) :
    Happening.own o (Happening.ofAnswer before request (.ok object)) = [] ∧
      Agrees after next o life := by
  refine ⟨Happening.own_singleton_of_ne other, agrees.frame ?_ ?_ waiting running ?_ queues⟩
  · rw [h.mem_live]
    exact or_iff_left (Ne.symm other)
  · rw [h.finalizers, Ref.entriesIn_append, Ref.entriesIn_entries_of_ne request other,
      List.append_nil]
  · intro _
    rw [Memory.flags, Memory.header, h.headerWord, if_neg other]
    rfl

theorem cleared (agrees : Agrees before stage o life) (nodup : before.heap.live.Nodup)
    (h : before.heap.Cleared after.heap) (none_waiting : stage.waiting = [])
    (none_running : stage.running = []) (waiting : next.waiting = stage.waiting)
    (running : next.running = stage.running) :
    ∃ ended, Moves o life (Happening.own o (before.heap.live.map .discarded)) ended ∧
      Agrees after next o ended := by
  have dead : o ∉ after.heap.live := by
    rw [Heap.live, h.objects, h.external]
    exact List.not_mem_nil
  have ended : Agrees after next o absent := {
    live := iff_of_false dead (by simp)
    registered := by
      rw [h.finalizers]
      rfl
    waiting := by
      rw [waiting, none_waiting]
      rfl
    running := by
      rw [running, none_running]
      rfl
    flagged := fun member => absurd member dead
    callback := by
      intro progress entry callback same
      cases same }
  refine ⟨absent, ?_, ended⟩
  rw [Happening.own_map_of_nodup o (fun _ => rfl) nodup]
  by_cases member : o ∈ before.heap.live
  · rw [if_pos member]
    refine .cons (.discard ?_) (.nil _)
    have due := agrees.waiting
    have called := agrees.running
    rw [none_waiting] at due
    rw [none_running] at called
    -- an idle heap has no finalizer that is due or running, so the life may end here
    cases life with
    | absent => exact absurd rfl (agrees.live.mp member)
    | plain => trivial
    | finalizable progress entry callback =>
      cases progress with
      | pending => exact .inl rfl
      | due => cases due
      | running => cases called
      | finished => exact .inr rfl
  · rw [if_neg member, agrees.eq_absent member]
    exact .nil _

section Reclaimed

variable {heap : Heap σ} {cycle : Cycle} {code caller : Code σ}

theorem own_ofCycle (consistent : before.heap.Consistent)
    (h : before.heap.Reclaimed cycle heap) :
    Happening.own o (Happening.ofCycle before.heap cycle heap) =
      (o.entriesIn cycle.scheduled).map .scheduled ++
        if o ∈ before.heap.unreached then [.freed o] else [] := by
  have nodup := (List.nodup_append.mp consistent.live_nodup).1
  rw [Happening.ofCycle, Happening.own_append, Happening.own_scheduled,
    Happening.own_map_of_nodup o (fun _ => rfl) (nodup.filter _)]
  congr 1
  have same : o ∈ before.heap.objects.toList.filter (· ∉ heap.objects.toList) ↔
      o ∈ before.heap.unreached := by
    rw [List.mem_filter, decide_eq_true_eq, h.mem_objects, Heap.mem_unreached]
    tauto
  simp only [same]

theorem entriesIn_perm (agrees : Agrees before stage o life)
    (h : before.heap.Reclaimed cycle heap) :
    (o.entriesIn heap.finalizers.toList ++ o.entriesIn cycle.scheduled).Perm
      (life.entries .pending) := by
  rw [← agrees.registered, ← Ref.entriesIn_append]
  exact h.divides.perm.filter _

theorem spared (agrees : Agrees before (.code .outside code) o life)
    (h : before.heap.Reclaimed cycle heap) (kept : o ∈ before.heap.live → before.heap.Retained o)
    (unscheduled : o.entriesIn cycle.scheduled = []) :
    Agrees { before with heap } (.between ⟨cycle, cycle.scheduled, caller⟩) o life := by
  have perm := agrees.entriesIn_perm h
  rw [unscheduled, List.append_nil] at perm
  have idle : life.entries .due = [] := agrees.waiting.symm
  exact {
    live := by
      refine Iff.trans ?_ agrees.live
      rw [h.mem_live]
      exact and_iff_left_of_imp kept
    registered := by
      cases life with
      | absent => exact List.perm_nil.mp perm
      | plain => exact List.perm_nil.mp perm
      | finalizable progress entry callback =>
        cases progress with
        | pending => exact List.perm_singleton.mp perm
        | due => exact List.perm_nil.mp perm
        | running => exact List.perm_nil.mp perm
        | finished => exact List.perm_nil.mp perm
    waiting := unscheduled.trans idle.symm
    running := agrees.running
    flagged := by
      intro member
      have scheduled := Ref.entriesIn_eq_nil.mp unscheduled
      rw [h.finalizerReachable, agrees.flagged (h.mem_live.mp member).1]
      simp [scheduled]
    callback := agrees.callback }

theorem swept (agrees : Agrees before (.code .outside code) o life)
    (h : before.heap.Reclaimed cycle heap) (lost : ¬ before.heap.Retained o)
    (done : life.entries .pending = []) :
    Agrees { before with heap } (.between ⟨cycle, cycle.scheduled, caller⟩) o absent := by
  have perm := agrees.entriesIn_perm h
  rw [done, List.perm_nil, List.append_eq_nil_iff] at perm
  have dead : o ∉ heap.live := fun member => lost (h.mem_live.mp member).2
  exact {
    live := iff_of_false dead (by simp)
    registered := perm.1
    waiting := perm.2
    running := rfl
    flagged := fun member => absurd member dead
    callback := by
      intro progress entry callback same
      cases same }

theorem reclaimed_of_idle (agrees : Agrees before (.code .outside code) o life)
    (consistent : before.heap.Consistent) (h : before.heap.Reclaimed cycle heap)
    (idle : life.entries .pending = []) :
    ∃ later, Moves o life (Happening.own o (Happening.ofCycle before.heap cycle heap)) later ∧
      Agrees { before with heap } (.between ⟨cycle, cycle.scheduled, caller⟩) o later := by
  have perm := agrees.entriesIn_perm h
  rw [idle, List.perm_nil, List.append_eq_nil_iff] at perm
  rw [own_ofCycle consistent h, perm.2, List.map_nil, List.nil_append]
  by_cases lost : o ∈ before.heap.unreached
  · obtain ⟨registered, unkept⟩ := Heap.mem_unreached.mp lost
    rw [if_pos lost]
    refine ⟨absent, .cons (.free ?_) (.nil _), agrees.swept h unkept idle⟩
    have live := agrees.live.mp (Heap.mem_live_of_objects registered)
    have due := agrees.waiting
    have called := agrees.running
    cases life with
    | absent => exact absurd rfl live
    | plain => trivial
    | finalizable progress entry callback =>
      cases progress with
      | pending => cases idle
      | due => cases due
      | running => cases called
      | finished => rfl
  · rw [if_neg lost]
    refine ⟨life, .nil life, agrees.spared h ?_ perm.2⟩
    intro live
    by_contra unkept
    rcases List.mem_append.mp live with registered | external
    · exact lost (Heap.mem_unreached.mpr ⟨registered, unkept⟩)
    · exact unkept (Heap.retained_of_external external)

theorem reclaimed_of_pending {entry : FinalizerEntry} {callback : Ref → Program σ}
    (agrees : Agrees before (.code .outside code) o (finalizable .pending entry callback))
    (consistent : before.heap.Consistent) (h : before.heap.Reclaimed cycle heap) :
    ∃ later, Moves o (finalizable .pending entry callback)
        (Happening.own o (Happening.ofCycle before.heap cycle heap)) later ∧
      Agrees { before with heap } (.between ⟨cycle, cycle.scheduled, caller⟩) o later := by
  have registered : o.entriesIn before.heap.finalizers.toList = [entry] := agrees.registered
  have listed : o ∈ before.heap.finalizerObjects := by
    by_contra unlisted
    rw [Ref.entriesIn_eq_nil.mpr unlisted] at registered
    cases registered
  have kept : before.heap.Retained o := Heap.retained_of_finalizer listed
  have single := List.perm_singleton.mp (agrees.entriesIn_perm h)
  rw [own_ofCycle consistent h, if_neg (fun lost => (Heap.mem_unreached.mp lost).2 kept),
    List.append_nil]
  rcases List.append_eq_singleton_iff.mp single with ⟨stays, due⟩ | ⟨stays, due⟩
  · have scheduled : o ∈ cycle.scheduled.map FinalizerEntry.object := by
      by_contra unscheduled
      rw [Ref.entriesIn_eq_nil.mpr unscheduled] at due
      cases due
    rw [due]
    refine ⟨_, .cons (.schedule entry callback) (.nil _), ?_⟩
    exact {
      live := by
        rw [h.mem_live]
        exact iff_of_true ⟨agrees.live.mpr (by simp), kept⟩ (by simp)
      registered := stays
      waiting := due
      running := rfl
      flagged := by
        intro _
        rw [h.finalizerReachable]
        simp [scheduled, isFlagged]
      callback := by
        intro progress entry' callback' same
        cases same
        exact agrees.callback .pending entry callback rfl }
  · rw [due]
    exact ⟨_, .nil _, agrees.spared h (fun _ => kept) due⟩

theorem reclaimed (agrees : Agrees before (.code .outside code) o life)
    (consistent : before.heap.Consistent) (h : before.heap.Reclaimed cycle heap) :
    ∃ later, Moves o life (Happening.own o (Happening.ofCycle before.heap cycle heap)) later ∧
      Agrees { before with heap } (.between ⟨cycle, cycle.scheduled, caller⟩) o later := by
  cases life with
  | absent => exact agrees.reclaimed_of_idle consistent h rfl
  | plain => exact agrees.reclaimed_of_idle consistent h rfl
  | finalizable progress entry callback =>
    cases progress with
    | pending => exact agrees.reclaimed_of_pending consistent h
    | due => exact agrees.reclaimed_of_idle consistent h rfl
    | running => exact agrees.reclaimed_of_idle consistent h rfl
    | finished => exact agrees.reclaimed_of_idle consistent h rfl

end Reclaimed

theorem code {place : Place σ} {code rest : Code σ} {new : List (Happening σ)}
    (agrees : Agrees before (.code place code) o life)
    (effect : Effect before code new after.heap) (consistent : before.heap.Consistent)
    (accounted : before.heap.Accounted)
    (collecting : before.heap.collecting = (Stage.code place code).isCollecting)
    (queues : ∃ added, after.queues.toList = before.queues.toList ++ added) :
    ∃ later, Moves o life (Happening.own o new) later ∧ Agrees after (.code place rest) o later := by
  have waiting : (Stage.code place rest).waiting = (Stage.code place code).waiting := by
    cases place <;> rfl
  have running : (Stage.code place rest).running = (Stage.code place code).running := by
    cases place <;> rfl
  cases effect with
  | aside h =>
    refine ⟨life, .nil life, agrees.frame ?_ ?_ waiting running ?_ queues⟩
    · rw [h.live_eq]
    · rw [h.finalizers]
    · intro _
      rw [h.memory]
  | wrote called writes h =>
    refine ⟨life, .nil life, agrees.frame ?_ ?_ waiting running ?_ queues⟩
    · rw [h.live_eq]
    · rw [h.after_eq]
    · intro _
      exact Memory.flags_congr (h.headerWord o)
  | @granted _ request cost object descriptor admitted fits h =>
    have fresh := Effect.fresh_of_fits accounted admitted fits
    by_cases same : object = o
    · subst same
      exact agrees.granted_self fresh admitted h waiting running queues
    · obtain ⟨none, agrees⟩ := agrees.granted_other same h waiting running queues
      rw [none]
      exact ⟨life, .nil life, agrees⟩
  | cleared h =>
    rw [h.idle] at collecting
    cases place with
    | outside => exact agrees.cleared consistent.live_nodup h rfl rfl rfl rfl
    | callback entry collection => cases collecting

omit [RawMemory σ] in
theorem called {cycle : Cycle} {entry : FinalizerEntry} {waiting : List FinalizerEntry}
    {caller : Code σ} {callback : Ref → Program σ} {record : LogRecord}
    (agrees : Agrees before (.between ⟨cycle, entry :: waiting, caller⟩) o life)
    (found : before.queues[entry.queue.index]? = some callback) :
    ∃ later, Moves o life (Happening.own o [.called entry callback]) later ∧
      Agrees { before with heap := before.heap.record (.logged record) }
        (.code (.callback entry ⟨cycle, waiting, caller⟩) (.run (callback entry.object)))
        o later := by
  by_cases same : entry.object = o
  · subst same
    have due : entry :: entry.object.entriesIn waiting = life.entries .due :=
      (Ref.entriesIn_cons_self entry waiting).symm.trans agrees.waiting
    cases life with
    | absent => cases due
    | plain => cases due
    | finalizable progress other given =>
      cases progress with
      | pending => cases due
      | running => cases due
      | finished => cases due
      | due =>
        obtain ⟨rfl, others⟩ := List.cons_eq_cons.mp due
        have callback_eq : callback = given := by
          have kept := agrees.callback .due entry given rfl
          rw [found] at kept
          exact Option.some.inj kept
        subst callback_eq
        have own : Happening.own entry.object [Happening.called entry callback] =
            [.called entry callback] := Happening.own_singleton rfl
        rw [own]
        refine ⟨_, .cons (.call entry callback) (.nil _), ?_⟩
        exact {
          live := iff_of_true (agrees.live.mpr (by simp)) (by simp)
          registered := agrees.registered
          waiting := others
          running := Ref.entriesIn_cons_self entry []
          flagged := agrees.flagged
          callback := by
            intro progress entry' callback' same
            cases same
            exact found }
  · have none : Happening.own o [Happening.called entry callback] = [] :=
      Happening.own_singleton_of_ne same
    rw [none]
    refine ⟨life, .nil life, ?_⟩
    exact {
      agrees with
      waiting := (Ref.entriesIn_cons_of_ne same waiting).symm.trans agrees.waiting
      running := (Ref.entriesIn_cons_of_ne same []).trans agrees.running }

omit [RawMemory σ] in
theorem returned {entry : FinalizerEntry} {collection : Collection σ} {running : Code σ}
    {stats : Stats} (agrees : Agrees before (.code (.callback entry collection) running) o life) :
    ∃ later, Moves o life (Happening.own o [.returned entry]) later ∧
      Agrees { before with heap := { before.heap with stats } } (.between collection) o later := by
  by_cases same : entry.object = o
  · subst same
    have called : [entry] = life.entries .running :=
      (Ref.entriesIn_cons_self entry []).symm.trans agrees.running
    cases life with
    | absent => cases called
    | plain => cases called
    | finalizable progress other callback =>
      cases progress with
      | pending => cases called
      | due => cases called
      | finished => cases called
      | running =>
        obtain ⟨rfl, _⟩ := List.cons_eq_cons.mp called
        have own : Happening.own entry.object [(.returned entry : Happening σ)] =
            [.returned entry] := Happening.own_singleton rfl
        rw [own]
        refine ⟨_, .cons (.return entry callback) (.nil _), ?_⟩
        exact {
          live := iff_of_true (agrees.live.mpr (by simp)) (by simp)
          registered := agrees.registered
          waiting := agrees.waiting
          running := rfl
          flagged := agrees.flagged
          callback := by
            intro progress entry' callback' same
            cases same
            exact agrees.callback .running entry callback rfl }
  · have none : Happening.own o [(.returned entry : Happening σ)] = [] :=
      Happening.own_singleton_of_ne same
    rw [none]
    refine ⟨life, .nil life, ?_⟩
    exact {
      agrees with
      running := (Ref.entriesIn_cons_of_ne same []).symm.trans agrees.running }

end Agrees

end Life

end Reclaim
