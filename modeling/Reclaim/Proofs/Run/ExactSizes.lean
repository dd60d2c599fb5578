import Reclaim.Proofs.Run.GrowthPolicy
import Reclaim.Proofs.Run.Identity

namespace Reclaim

variable {σ : Type} [RawMemory σ]

namespace Collector

variable {before : Collector σ} {request : Request}

theorem allocate_of_refuse {error : AllocError}
    (refused : request.accept before.heap.types before.queues.size = .error error) :
    apply (.allocate request) before = .ok (.error error) before := by
  change allocate collect request before = _
  rw [allocate, get_bind]
  simp only [refused]
  rfl

theorem refused_iff {error : AllocError} (reason : ∀ reason, error ≠ .allocationFailed reason) :
    (∃ after, apply (.allocate request) before = .ok (.error error) after) ↔
      request.accept before.heap.types before.queues.size = .error error := by
  constructor
  · rintro ⟨after, run⟩
    rcases allocate_eq_ok run with ⟨found, refused, same, _⟩ | ⟨cost, middle, _, _, run⟩
    · cases same
      exact refused
    · obtain ⟨found, _, same, _⟩ := Heap.allocateNow_eq_refused (onHeap_eq_ok run).1
      exact absurd same (reason found)
  · intro refused
    exact ⟨before, allocate_of_refuse refused⟩

end Collector

theorem Runs.allocationCost_eq {types : TypeTable} (valid : types.Valid) (growth : Growth)
    (host : σ) (program : Program σ) {point : Point σ}
    (run : Runs Point.Lawful (.start { heap := { growth, types, host } } program) point) {o : Ref}
    (live : o ∈ point.collector.heap.live) {request : Request} {cost : Word}
    (asked : o.request? point.history = some request) (price : request.cost? = some cost) :
    point.collector.heap.types.allocationCost point.collector.heap.memory o = .ok cost := by
  obtain ⟨sound, _, priced⟩ := (Sized.start valid growth host program).of_runs run
  obtain ⟨found, known⟩ := sound.consistent.sized o live
  have paid := priced o live
  rw [Ref.price?_eq, asked, Option.bind_eq_bind, Option.bind_some, price,
    Heap.cost_eq_of_ok known] at paid
  cases paid
  exact known

/-- The size of the payload that a request asks for, and the number of bytes that the object takes,
    in all the places where one or the other is worked out. -/
structure Request.Measures (σ : Type) [RawMemory σ] (request : Request) (size cost : Word) :
    Prop where
  payloadSize : request.layout.payloadSize? request.length = some size
  bytes : size.toNat = request.totalBytes - 8
  allocationCost : allocationCost? size = some cost
  least : IsLeast {n | 8 ∣ n ∧ request.totalBytes ≤ n} cost.toNat
  served : ∀ before : Collector σ, request.Suits before.heap.types before.queues.size →
    ∀ answer after, Collector.apply (.allocate request) before = .ok answer after →
      ∃ middle, before.Served request cost middle answer after
  answers : ∀ before : Collector σ, request.Suits before.heap.types before.queues.size →
    before.WellFormed → before.Supports request cost →
    (before.isDue request cost = true →
      Collector.Willing { before with heap := before.heap.announced cost }) →
    ∃ answer after, Collector.apply (.allocate request) before = .ok answer after
  kept : ∀ (types : TypeTable) (growth : Growth) (host : σ) (program : Program σ) (point : Point σ),
    types.Valid → Runs Point.Lawful (.start { heap := { growth, types, host } } program) point →
    ∀ o ∈ point.collector.heap.live, o.request? point.history = some request →
      point.collector.heap.types.allocationCost point.collector.heap.memory o = .ok cost

theorem Request.measures_of_cost? {request : Request} {size cost : Word}
    (payloadSize : request.layout.payloadSize? request.length = some size)
    (allocationCost : allocationCost? size = some cost) : request.Measures σ size cost := by
  have price : request.cost? = some cost :=
    Option.bind_eq_some_iff.mpr ⟨size, payloadSize, allocationCost⟩
  exact {
    payloadSize, allocationCost
    bytes := by
      rw [Layout.payloadSize?_eq_some.mp payloadSize, totalBytes]
      exact (Nat.add_sub_cancel_left ..).symm
    least := cost?_iff_isLeast.mp price
    served := fun before suits answer after run =>
      Collector.exists_served (accept_eq_ok.mpr ⟨suits, price⟩) run
    answers := by
      intro before suits formed supports willing
      have accepted := accept_eq_ok.mpr ⟨suits, price⟩
      obtain ⟨middle, prepared, same⟩ :=
        Collector.exists_prepared accepted formed supports willing
      obtain ⟨answer, after, run⟩ := prepared.exists_answer formed supports
      exact ⟨answer, after, same.trans run⟩
    kept := fun _ growth host program _ valid run o live asked =>
      Runs.allocationCost_eq valid growth host program run live asked price }

/-- Sizes are exact. The size of a payload can be represented if and only if it is below the size of
    the address space. A request that suits is refused as too large if and only if header, payload
    and rounding go past the last word; otherwise its size and its cost are the true ones, and all
    paths agree on them. -/
theorem Request.sizes_exact (request : Request) :
    (request.layout.payloadSize? request.length = none ↔
      2 ^ 64 ≤ request.layout.payloadBytes request.length) ∧
    (∀ before : Collector σ, request.Suits before.heap.types before.queues.size →
      ((∃ after, Collector.apply (.allocate request) before = .ok (.error .outOfMemory) after) ↔
        2 ^ 64 - 8 < request.totalBytes)) ∧
    (request.totalBytes ≤ 2 ^ 64 - 8 → ∃ size cost, request.Measures σ size cost) := by
  refine ⟨Layout.payloadSize?_eq_none, ?_, ?_⟩
  · intro before suits
    have refused := @Collector.refused_iff σ _ before request .outOfMemory nofun
    rw [accept_eq_outOfMemory, and_iff_right suits, cost?_eq_none] at refused
    exact refused
  · intro small
    have priced : request.cost? ≠ none := mt cost?_eq_none.mp (Nat.not_lt.mpr small)
    obtain ⟨cost, price⟩ := Option.ne_none_iff_exists'.mp priced
    obtain ⟨size, payloadSize, allocationCost⟩ := Option.bind_eq_some_iff.mp price
    exact ⟨size, cost, measures_of_cost? payloadSize allocationCost⟩

def Program.pairing : Program SystemMemory :=
  .call (.allocate .pair) fun _ => .done

theorem Program.runs_pairing : ∃ heap : Heap SystemMemory,
    Runs Point.Lawful (.start { heap := .noRow } pairing)
        ⟨{ heap := heap }, .code .outside (.run .done), [.allocated .lowest .pair none]⟩ ∧
      .lowest ∈ heap.live := by
  have admits : CodeStep { heap := Heap.noRow } (.run pairing) [] { heap := Heap.noRow }
      (.allocate .pair 32 fun _ => .done) := by
    refine .accept ?_ ?_ _
    · rfl
    · decide +kernel
  have granted : RawMemory.request 32 Heap.noRow.host = (.ok .lowest, ⟨2⟩) := rfl
  have fits : Code.Lawful Heap.noRow (.allocate .pair 32 fun _ => .done) := by
    intro object host answer
    rw [granted] at answer
    cases answer
    exact ⟨by decide, nofun⟩
  obtain ⟨heap, allocated⟩ :
      ∃ heap, Heap.allocateNow .pair 32 Heap.noRow = .ok (.ok .lowest) heap := ⟨_, rfl⟩
  have start : Runs Point.Lawful (.start { heap := Heap.noRow } pairing)
      ⟨{ heap := .noRow }, .code .outside (.run pairing), []⟩ := .refl
  have made := (start.code nofun admits).code fits (.allocate allocated _)
  exact ⟨heap, made, ((Heap.granted_of_allocateNow allocated).mem_live _).mpr (.inr rfl)⟩

def Request.immense : Request :=
  .varsize ⟨0⟩ 0x2000000000000000 8 8 0

theorem Request.sizes_exact_pair :
    (∃ (point : Point SystemMemory) (size cost : Word), pair.Measures SystemMemory size cost ∧
      size = 24 ∧ cost = 32 ∧ .lowest ∈ point.collector.heap.live ∧
      point.collector.heap.types.allocationCost point.collector.heap.memory .lowest = .ok cost) ∧
    ∃ after, Collector.apply (.allocate .immense) { heap := Heap.noRow } =
      .ok (.error .outOfMemory) after := by
  constructor
  · obtain ⟨size, cost, measures⟩ := (@sizes_exact SystemMemory _ pair).2.2 (by decide)
    obtain ⟨heap, run, live⟩ := Program.runs_pairing
    have kept := measures.kept .rows {} {} .pairing _ TypeTable.valid_rows run .lowest live rfl
    have size_eq : size = 24 := Option.some.inj (measures.payloadSize.symm.trans rfl)
    have cost_eq : cost = 32 := by
      have known := measures.allocationCost
      rw [size_eq] at known
      exact Option.some.inj (known.symm.trans rfl)
    exact ⟨_, size, cost, measures, size_eq, cost_eq, live, kept⟩
  · have suits : immense.Suits Heap.noRow.types 0 := ⟨⟨_, rfl, rfl, nofun⟩, nofun⟩
    exact ((@sizes_exact SystemMemory _ immense).2.1 { heap := Heap.noRow } suits).mpr (by decide)

end Reclaim
