import Reclaim.Proofs.Run.Courses

namespace Reclaim

variable {σ : Type} [RawMemory σ] {slots : SlotMap}

theorem Step.types_eq {point next : Point σ} (step : Step point next) (sound : Sound point)
    (lawful : point.Lawful) : next.collector.heap.types = point.collector.heap.types := by
  cases step with
  | code step place history =>
    exact (step.effect sound.consistent lawful (sound.pending _ Stage.mem_codes)).1.types_eq
  | nested busy next history => rfl
  | reclaim idle reclaimed next history =>
    exact (Heap.reclaimed_of_ok sound.consistent (lawful idle) reclaimed).types
  | call found cycle waiting caller history => rfl
  | «return» collector entry collection history => rfl
  | finish finished caller history => exact (Heap.finish_eq_ok finished).1.types

theorem Runs.types_eq {point last : Point σ} (sound : Sound point)
    (run : Runs Point.Lawful point last) :
    last.collector.heap.types = point.collector.heap.types := by
  induction run with
  | refl => rfl
  | tail reached step ih => exact (step.2.types_eq (sound.of_runs reached) step.1).trans ih

/-- A reset gives back what is held, each block once and at the size that it was granted for: first
    the objects of the registry, then the external ones, both in allocation order. That is all that
    the raw memory sees of it and that the journal says, and nothing is held afterwards. -/
structure Heap.GivesBack (before after : Heap σ) (blocks : List (Ref × Word)) : Prop where
  journal : after.journal.toList =
    before.journal.toList ++ blocks.map fun block => .released block.1 block.2
  host : after.host =
    blocks.foldl (fun host block => RawMemory.release block.1 block.2 host) before.host
  order : blocks.map Prod.fst = before.objects.toList ++ before.external.toList
  once : blocks.Nodup
  held : ∀ block, block ∈ blocks ↔ block ∈ before.ledger.held
  objects_order : before.objects.toList.Sublist (before.ledger.held.map Prod.fst)
  external_order : before.external.toList.Sublist (before.ledger.held.map Prod.fst)
  settled : after.ledger = {}

theorem Heap.Accounted.givesBack {heap : Heap σ} (accounted : heap.Accounted)
    (nodup : heap.live.Nodup) : heap.GivesBack heap.renewed (heap.blocks heap.live) where
  journal := by
    rw [renewed, Array.toList_append, List.toList_toArray, releasings_eq]
  host := by
    rw [renewed, releasedHost, blocks, List.foldl_map]
  order := map_fst_blocks heap heap.live
  once := by
    refine List.Nodup.of_map Prod.fst ?_
    rwa [map_fst_blocks]
  held := by
    intro block
    refine ⟨accounted.mem_held_blocks (fun _ live => live) block, fun held => ?_⟩
    rw [accounted.held_eq_cost held, mem_blocks]
    exact ⟨accounted.live_of_held held, rfl⟩
  objects_order := accounted.objects_sublist
  external_order := accounted.external_sublist
  settled := accounted.settled nodup (by rw [renewed, Array.toList_append, List.toList_toArray])

namespace Collector

variable {collector : Collector σ}

section Reset

variable (formed : collector.WellFormed) (idle : collector.heap.collecting = false)

include formed idle

theorem WellFormed.apply_reset (queues : Array (Ref → Program σ)) :
    apply .reset ⟨collector.heap, queues⟩ = .ok () ⟨collector.heap.renewed, queues⟩ := by
  have run := Heap.reset_eq_ok idle formed.consistent.sized
  exact @onHeap_of_ok _ _ _ ⟨collector.heap, queues⟩ _ _ run

theorem WellFormed.renewed : WellFormed ⟨collector.heap.renewed, collector.queues⟩ := by
  have cleared := Heap.cleared_of_reset formed.consistent.sized
    (Heap.reset_eq_ok idle formed.consistent.sized)
  exact {
    consistent := cleared.consistent formed.consistent.types_valid
    accounted := cleared.accounted formed.accounted formed.consistent.live_nodup
    registered := nofun }

end Reset

omit [RawMemory σ] in
theorem wellFormed_new {types : TypeTable} (valid : types.Valid) (growth : Growth) (host : σ)
    (scanners : Array (σ → List Ref)) (queues : Array (Ref → Program σ)) :
    WellFormed ⟨{ growth, types, host, scanners }, queues⟩ where
  consistent := { Heap.consistent_create valid growth host with }
  accounted := { Heap.accounted_create types growth host with }
  registered := nofun

omit [RawMemory σ] in
theorem alike_of_blind {heap other : Heap σ} (alike : heap.Alike slots other)
    {queues : Array (Ref → Program σ)}
    (blind : ∀ callback ∈ queues.toList, Blind slots callback) :
    Alike slots ⟨heap, queues⟩ ⟨other, queues⟩ where
  heap := alike
  size := rfl
  queue := by
    intro i
    cases found : queues[i]? with
    | none => exact .none
    | some callback =>
      exact .some (blind callback (Array.mem_toList_iff.mpr (Array.mem_of_getElem? found)))

end Collector

/-- A reset of an idle heap runs no callback: its outcome is the same whatever the queues are. It
    gives back what is held and leaves the heap as a new one, with the scanners that were added and
    with a root table that starts at id 0 again. From then on, if the callbacks depend on nothing
    but the heap and the object that they are given, whatever is done with this collector and with
    one whose heap is new leaves both alike and has the same outcome for both, wherever their raw
    memories put the objects. -/
theorem Runs.reset_renews {types : TypeTable} (valid : types.Valid) (growth : Growth) (host : σ)
    (program : Program σ) {point : Point σ}
    (run : Runs Point.Lawful (.start { heap := { growth, types, host } } program) point)
    (idle : point.collector.heap.collecting = false) :
    let heap := point.collector.heap
    let queues := point.collector.queues
    ∃ after : Heap σ,
      (∀ any, Collector.apply .reset ⟨heap, any⟩ = .ok () ⟨after, any⟩) ∧
      (∃ blocks, heap.GivesBack after blocks) ∧
      after = { growth, types, host := after.host, memory := heap.memory, scanners := heap.scanners,
                journal := after.journal } ∧
      (∀ target, (after.roots.add target).1 = ⟨0⟩) ∧
      ∀ slots, types.Slotted slots → (∀ callback ∈ queues.toList, Blind slots callback) →
        ∀ (host : σ) (last last' : Collector σ),
          Collector.Course slots ⟨after, queues⟩
            ⟨{ growth, types, host, scanners := heap.scanners }, queues⟩ last last' →
          last.Alike slots last' ∧ ∀ operation operation' : Operation,
            operation.Alike (last.pairing last') operation' →
            last.Contract slots last' operation operation' →
            Collector.Outcome slots (fun pairing => operation.AnswersAlike pairing operation')
              (Collector.apply operation last) (Collector.apply operation' last') := by
  have start := Sound.start valid growth host program
  have formed := (start.of_runs run).wellFormed
  have growth_eq := ((Sized.start valid growth host program).of_runs run).growth
  have types_eq : point.collector.heap.types = types := Runs.types_eq start run
  subst growth_eq types_eq
  refine ⟨point.collector.heap.renewed, formed.apply_reset idle,
    ⟨_, formed.accounted.givesBack formed.consistent.live_nodup⟩, rfl, fun _ => rfl, ?_⟩
  intro slots slotted blind host' last last' course
  -- neither heap has objects, so there is nothing yet that tells one from the other
  have ready : Collector.Ready slots ⟨point.collector.heap.renewed, point.collector.queues⟩ :=
    ⟨formed.renewed idle, rfl, slotted, nofun⟩
  have new := Collector.wellFormed_new valid point.collector.heap.growth host'
    point.collector.heap.scanners point.collector.queues
  have ready' : Collector.Ready slots _ := ⟨new, rfl, slotted, nofun⟩
  obtain ⟨alike, ready, ready'⟩ :=
    course.alike (Collector.alike_of_blind (Heap.alike_vacant slots ..) blind) ready ready'
  exact ⟨alike, fun operation operation' operations contract =>
    (alike.operate ready ready' operations contract).outcome⟩

section Seclusion

omit [RawMemory σ] in
def Point.isSecluded (point : Point σ) : Bool :=
  point.collector.heap.scanners.isEmpty &&
    match point.stage with
    | .code _ (.allocate _ _ _) => false
    | _ => true

theorem Point.agrees_of_secluded {point other : Point σ} (alone : point.isSecluded = true)
    (alone' : other.isSecluded = true) : point.Agrees other := by
  obtain ⟨collector, stage, history⟩ := point
  obtain ⟨collector', stage', history'⟩ := other
  rw [isSecluded, Bool.and_eq_true, Array.isEmpty_iff] at alone alone'
  obtain ⟨scanners, alone⟩ := alone
  obtain ⟨scanners', alone'⟩ := alone'
  dsimp only at scanners scanners'
  cases stage with
  | between => cases stage' <;> trivial
  | code place code =>
    cases stage' with
    | between => trivial
    | code place' code' =>
      cases code with
      | run => cases code' <;> trivial
      | allocate => cases alone
      | collect =>
        cases code' with
        | run | allocate => trivial
        | collect =>
          intro _ a b _
          simp [Heap.scanned, scanners, scanners']

theorem Collector.accord_of_always {collector other : Collector σ} (steps : Nat)
    (whole : (Point.opening collector).always
      (fun later => decide (later.Careful slots) && later.isSecluded) steps = true)
    (whole' : (Point.opening other).always
      (fun later => decide (later.Careful slots) && later.isSecluded) steps = true) :
    collector.Accord slots other := by
  intro point point' together
  have run := together.lift Prod.fst fun _ _ step => step.1
  have run' := together.lift Prod.snd fun _ _ step => step.2
  obtain ⟨careful, alone⟩ := Bool.and_eq_true_iff.mp (Point.holds_of_always whole run)
  obtain ⟨careful', alone'⟩ := Bool.and_eq_true_iff.mp (Point.holds_of_always whole' run')
  exact ⟨of_decide_eq_true careful, of_decide_eq_true careful',
    Point.agrees_of_secluded alone alone'⟩

omit [RawMemory σ] in
def Stage.addsQueue : Stage σ → Bool
  | .code _ (.run (.addQueue _ _)) => true
  | _ => false

theorem Step.queues_eq {point next : Point σ} (step : Step point next)
    (quiet : point.stage.addsQueue = false) : next.collector.queues = point.collector.queues := by
  cases step with
  | code step =>
    cases step with
    | operate plain performed =>
      rcases Collector.apply_eq_ok plain performed with ⟨rfl, reset⟩ | ⟨_, _, _, rfl⟩
      · exact (Collector.onHeap_eq_ok reset).2
      · rfl
    | addQueue => cases quiet
    | inspect | collect | refuse | accept | exceed | allocate | addScanner | host | poke => rfl
  | nested | reclaim | call | «return» | finish => rfl

theorem Point.queues_eq_of_always {point later : Point σ} {steps : Nat}
    (whole : point.always (fun later => !later.stage.addsQueue) steps = true)
    (run : Relation.ReflTransGen Step point later) :
    later.collector.queues = point.collector.queues := by
  induction run with
  | refl => rfl
  | tail reached step ih =>
    have quiet := Point.holds_of_always whole reached
    rw [Bool.not_eq_true'] at quiet
    exact (step.queues_eq quiet).trans ih

end Seclusion

theorem Collector.Contract.of_granted {collector other : Collector σ} (request : Request)
    (cost : Word) (object object' : Ref)
    (granted : request.accept collector.heap.types collector.queues.size = .ok cost ∧
      (¬ collector.heap.exceedsThreshold cost ∧ ¬ other.heap.exceedsThreshold cost) ∧
      (Code.Careful slots collector.heap (.allocate request cost fun _ => .done) ∧
        Code.Careful slots other.heap (.allocate request cost fun _ => .done)) ∧
      (RawMemory.request cost collector.heap.host).1 = .ok object ∧
        (RawMemory.request cost other.heap.host).1 = .ok object') :
    Contract slots collector other (.allocate request) (.allocate request) where
  careful := ⟨nofun, nofun, nofun⟩
  careful' := ⟨nofun, nofun, nofun⟩
  collection := nofun
  allocation := by
    obtain ⟨accepted, small, fits, granted⟩ := granted
    rintro request cost same accepted'
    cases same
    cases accepted.symm.trans accepted'
    -- below the threshold there is no collection that could prepare the heap
    have directly {before middle : Collector σ} (prepared : Prepared request cost before middle)
        (small : ¬ before.heap.exceedsThreshold cost) : middle = before := by
      cases prepared with
      | directly => rfl
      | guarded large | collected large => exact absurd large.2 small
    refine ⟨fun due => absurd (isDue_iff.mp due).2.2 small.1, ?_, ?_, ?_⟩
    · intro middle prepared
      rw [directly prepared small.1]
      exact fits.1
    · intro middle prepared
      rw [directly prepared small.2]
      exact fits.2
    · intro middle middle' prepared prepared'
      rw [directly prepared small.1, directly prepared' small.2, granted.1, granted.2]
      exact .granted _ _

theorem Program.blind_insist (slots : SlotMap) : Blind slots insist :=
  fun _ _ _ _ => .call .collect fun _ _ _ _ _ => .done

namespace Collector

theorem queues_crowded : crowded.queues = #[Program.insist] := by
  have quiet : (Point.after 1 .tour).always (fun later => !later.stage.addsQueue) 40 = true := by
    decide +kernel
  exact Point.queues_eq_of_always quiet (Point.reaches_after 15 _)

def cleared : Collector Shelves :=
  final (apply .reset crowded)

def pristine : Collector Shelves :=
  ⟨{ growth := .short, types := .mixed, host := ⟨[.placed 64]⟩, scanners := crowded.heap.scanners },
    crowded.queues⟩

def onward (collector : Collector Shelves) : Collector Shelves :=
  (collector.after (.allocate (.holder (some ⟨⟨0⟩, false⟩)))).after .collect

theorem course_onward : Course TypeTable.mixedSlots cleared pristine cleared.onward
    pristine.onward := by
  have making : Contract TypeTable.mixedSlots cleared pristine _ _ :=
    .of_granted (.holder (some ⟨⟨0⟩, false⟩)) 24 (.placed 64) (.placed 128) (by decide +kernel)
  have made := Course.operate .start (.allocate _) making (by decide +kernel)
  refine made.operate .collect ⟨?_, ?_, fun _ => accord_of_always 20 ?_ ?_, nofun⟩ ?_
  all_goals decide +kernel

end Collector

/-- The blocks of five objects are given back, and the finalizer of one is not called. Then an
    object is made and finalized and a row is made beside it, elsewhere than with a new heap. -/
theorem Runs.reset_renews_tour : ∃ after : Heap Shelves, ∃ last last' : Collector Shelves,
    Collector.cleared.heap = after ∧
    (∃ blocks, Collector.crowded.heap.GivesBack after blocks ∧
      blocks.map Prod.fst = [.placed 64, .placed 128, .placed 192, .placed 320, .placed 256]) ∧
    (∀ target, (after.roots.add target).1 = ⟨0⟩) ∧
    Collector.apply (.allocate (.row 2)) Collector.cleared.onward = .ok (.ok (.placed 128)) last ∧
    Collector.apply (.allocate (.row 2)) Collector.pristine.onward =
      .ok (.ok (.placed 192)) last' ∧
    last.heap.stats.finalizersRun = 1 ∧ (last.pairing last').Pairs (.placed 128) (.placed 192) ∧
    last.Alike TypeTable.mixedSlots last' := by
  obtain ⟨after, reset, ⟨blocks, returned⟩, _, first, same⟩ := Runs.reset_renews
    TypeTable.valid_mixed .short ({} : Shelves) .tour (Runs.lawful_tour 16) (by decide +kernel)
  have cleared : Collector.cleared = ⟨after, Collector.crowded.queues⟩ :=
    congrArg Collector.final (reset _)
  have blind : ∀ callback ∈ Collector.crowded.queues.toList,
      Blind TypeTable.mixedSlots callback := by
    rw [Collector.queues_crowded]
    intro callback member
    rw [List.mem_singleton.mp member]
    exact Program.blind_insist _
  have making : Collector.Contract TypeTable.mixedSlots Collector.cleared.onward
      Collector.pristine.onward _ _ :=
    .of_granted (.row 2) 32 (.placed 128) (.placed 192) (by decide +kernel)
  have course := Collector.course_onward
  rw [cleared] at course making
  have made := (same _ TypeTable.slotted_mixed blind _ _ _ course).2 _ _ (.allocate _) making
  rw [← cleared] at made
  obtain ⟨last, run⟩ := Collector.exists_of_granted? (by decide +kernel :
    Collector.granted? (Collector.apply (.allocate (.row 2)) Collector.cleared.onward) =
      some (.placed 128))
  obtain ⟨last', run'⟩ := Collector.exists_of_granted? (by decide +kernel :
    Collector.granted? (Collector.apply (.allocate (.row 2)) Collector.pristine.onward) =
      some (.placed 192))
  have counted : (Collector.final (Collector.apply (.allocate (.row 2))
      Collector.cleared.onward)).heap.stats.finalizersRun = 1 := by decide +kernel
  rw [run] at made counted
  rw [run'] at made
  have places : blocks.map Prod.fst =
      [.placed 64, .placed 128, .placed 192, .placed 320, .placed 256] := by
    rw [returned.order]
    decide +kernel
  refine ⟨after, last, last', congrArg _ cleared, ⟨blocks, returned, places⟩, first, run, run',
    counted, ?_⟩
  cases made with
  | ok answers alike =>
    cases answers with
    | ok pair => exact ⟨pair, alike⟩

end Reclaim
