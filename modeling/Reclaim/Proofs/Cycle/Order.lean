import Reclaim.Proofs.Cycle.Exactness

namespace Reclaim

/-- Two descriptions of a type whose traces report the same references, perhaps in another order or
    another number of times. -/
structure Descriptor.Reordered (first second : Descriptor) : Prop where
  name : second.name = first.name
  layout : second.layout = first.layout
  weakOffset : second.weakOffset = first.weakOffset
  trace : ∀ view children, first.trace view = .ok children →
    ∃ others, second.trace view = .ok others ∧ ∀ child, child ∈ others ↔ child ∈ children

theorem Descriptor.Reordered.validate {first second : Descriptor} (h : first.Reordered second) :
    second.validate = first.validate := by
  simp only [Descriptor.validate, h.name, h.layout, h.weakOffset]

def TypeTable.Reordered (first second : TypeTable) : Prop :=
  ∀ typeId, Option.Rel Descriptor.Reordered (first.get? typeId) (second.get? typeId)

namespace TypeTable

namespace Reordered

variable {first second : TypeTable} {memory : Memory} {object : Ref}

theorem get?_cases (h : first.Reordered second) (typeId : TypeId) :
    (first.get? typeId = none ∧ second.get? typeId = none) ∨
      ∃ left right, first.get? typeId = some left ∧ second.get? typeId = some right ∧
        left.Reordered right := by
  have related := h typeId
  revert related
  cases first.get? typeId <;> cases second.get? typeId <;> intro related <;> cases related
  · exact .inl ⟨rfl, rfl⟩
  · rename_i same
    exact .inr ⟨_, _, rfl, rfl, same⟩

theorem valid (h : first.Reordered second) (valid : first.Valid) : second.Valid := by
  intro typeId descriptor known
  rcases h.get?_cases typeId with ⟨_, missing⟩ | ⟨left, right, found, found', same⟩
  · rw [missing] at known
    cases known
  · rw [found'] at known
    cases known
    exact same.validate.trans (valid typeId left found)

theorem allocationCost_eq (h : first.Reordered second) :
    second.allocationCost memory object = first.allocationCost memory object := by
  rw [TypeTable.allocationCost_eq, TypeTable.allocationCost_eq]
  rcases h.get?_cases (memory.header object).typeId with ⟨missing, missing'⟩ |
    ⟨left, right, found, found', same⟩
  · simp only [missing, missing']
  · simp only [found, found', same.layout]

theorem weakSlot?_eq (h : first.Reordered second) :
    second.weakSlot? memory object = first.weakSlot? memory object := by
  rw [weakSlot?, weakSlot?]
  rcases h.get?_cases (memory.header object).typeId with ⟨missing, missing'⟩ |
    ⟨left, right, found, found', same⟩
  · rw [missing, missing']
  · rw [found, found']
    exact same.weakOffset

theorem weakTarget?_eq (h : first.Reordered second) :
    second.weakTarget? memory object = first.weakTarget? memory object := by
  rw [weakTarget?, weakTarget?, h.weakSlot?_eq]

theorem exists_children (h : first.Reordered second) {children : List Ref}
    (reported : first.children memory object = .ok children) :
    ∃ others, second.children memory object = .ok others ∧
      ∀ child, child ∈ others ↔ child ∈ children := by
  rw [children_eq_trace] at reported ⊢
  rcases h.get?_cases (memory.header object).typeId with ⟨missing, _⟩ |
    ⟨left, right, found, found', same⟩
  · rw [missing] at reported
    cases reported
  · simp only [found, found', same.layout] at reported ⊢
    cases size : left.layout.payloadSize (memory.payload object) with
    | error fault =>
      rw [size] at reported
      cases reported
    | ok size' =>
      rw [size] at reported
      exact same.trace _ _ reported

theorem reachable (h : first.Reordered second) {starts others : List Ref}
    (sub : ∀ o ∈ starts, o ∈ others) (reached : first.Reachable memory starts object) :
    second.Reachable memory others object := by
  induction reached with
  | start member => exact .start (sub _ member)
  | child _ reported member ih =>
    obtain ⟨others, reported', same⟩ := h.exists_children reported
    exact ih.child reported' ((same _).mpr member)

end Reordered

end TypeTable

section Divides

variable {reached other : List Ref → Ref → Prop} {starts starts' : List Ref}

theorem Divides.agree_cons {entry : FinalizerEntry} {rest : List FinalizerEntry}
    (same : ∀ more, more ⊆ (entry :: rest).map FinalizerEntry.object →
      ∀ o, other (starts' ++ more) o ↔ reached (starts ++ more) o) :
    (other starts' entry.object ↔ reached starts entry.object) ∧
      ∀ more, more ⊆ rest.map FinalizerEntry.object → ∀ o,
        other ((starts' ++ [entry.object]) ++ more) o ↔
          reached ((starts ++ [entry.object]) ++ more) o := by
  constructor
  · simpa using same [] (List.nil_subset _) entry.object
  · intro more sub o
    rw [List.append_assoc, List.append_assoc]
    exact same (entry.object :: more) (List.cons_subset_cons _ sub) o

theorem Divides.unique {entries kept scheduled kept' scheduled' : List FinalizerEntry}
    (same : ∀ more, more ⊆ entries.map FinalizerEntry.object →
      ∀ o, other (starts' ++ more) o ↔ reached (starts ++ more) o)
    (h : Divides reached starts entries kept scheduled)
    (h' : Divides other starts' entries kept' scheduled') :
    kept' = kept ∧ scheduled' = scheduled := by
  induction h generalizing starts' kept' scheduled' with
  | nil starts =>
    cases h'
    exact ⟨rfl, rfl⟩
  | @keep starts entry rest kept scheduled alive _ ih =>
    obtain ⟨here, later⟩ := agree_cons same
    cases h' with
    | keep _ more =>
      obtain ⟨rfl, rfl⟩ := ih later more
      exact ⟨rfl, rfl⟩
    | schedule dead _ => exact absurd (here.mpr alive) dead
  | @schedule starts entry rest kept scheduled dead _ ih =>
    obtain ⟨here, later⟩ := agree_cons same
    cases h' with
    | keep alive _ => exact absurd (here.mp alive) dead
    | schedule _ more =>
      obtain ⟨rfl, rfl⟩ := ih later more
      exact ⟨rfl, rfl⟩

end Divides

namespace Heap

variable {σ : Type}

def enumerated (heap : Heap σ) : List Ref :=
  heap.roots.objects ++ heap.scanners.toList.flatMap fun scan => scan heap.host

/-- Two heaps that are equal except for the order in which objects are enumerated, and for how often
    roots and references are. -/
structure Reordered (first second : Heap σ) : Prop where
  types : first.types.Reordered second.types
  enumerated : ∀ o, o ∈ second.enumerated ↔ o ∈ first.enumerated
  external : second.external.toList.Perm first.external.toList
  weakHolders : second.weakHolders.toList.Perm first.weakHolders.toList
  growth : second.growth = first.growth
  host : second.host = first.host
  memory : second.memory = first.memory
  objects : second.objects = first.objects
  finalizers : second.finalizers = first.finalizers
  heapSize : second.heapSize = first.heapSize
  previousHeapSize : second.previousHeapSize = first.previousHeapSize
  collecting : second.collecting = first.collecting
  stats : second.stats = first.stats
  journal : second.journal = first.journal

namespace Reordered

variable {first second : Heap σ}

theorem mem_live (h : first.Reordered second) {o : Ref} : o ∈ second.live ↔ o ∈ first.live := by
  rw [live, live, List.mem_append, List.mem_append, h.objects, h.external.mem_iff]

theorem mem_rootObjects (h : first.Reordered second) {o : Ref} :
    o ∈ second.rootObjects ↔ o ∈ first.rootObjects := by
  change o ∈ second.enumerated ++ second.external.toList ↔
    o ∈ first.enumerated ++ first.external.toList
  rw [List.mem_append, List.mem_append, h.enumerated, h.external.mem_iff]

theorem finalizerObjects_eq (h : first.Reordered second) :
    second.finalizerObjects = first.finalizerObjects := by
  rw [finalizerObjects, finalizerObjects, h.finalizers]

theorem cost_eq (h : first.Reordered second) : second.cost = first.cost := by
  funext o
  rw [cost, cost, TypeTable.cost, TypeTable.cost, h.memory, h.types.allocationCost_eq]

theorem bytes_eq (h : first.Reordered second) : second.bytes = first.bytes :=
  bytes_of_cost h.cost_eq

theorem mem_live_of_enumerated (consistent : first.Consistent) (traceable : first.Traceable)
    {o : Ref} (member : o ∈ first.enumerated) : o ∈ first.live :=
  rootObjects_live consistent traceable o (List.mem_append_left _ member)

theorem consistent (h : first.Reordered second) (consistent : first.Consistent)
    (traceable : first.Traceable) : second.Consistent where
  types_valid := h.types.valid consistent.types_valid
  live_nodup := by
    rw [live, h.objects]
    exact (h.external.append_left _).nodup_iff.mpr consistent.live_nodup
  unmarked := by
    intro o member
    rw [h.memory]
    exact consistent.unmarked o (h.mem_live.mp member)
  sized := by
    intro o member
    rw [h.memory, h.types.allocationCost_eq]
    exact consistent.sized o (h.mem_live.mp member)
  heapSize := by
    rw [h.heapSize, h.bytes_eq, h.objects]
    exact consistent.heapSize
  finalizers_nodup := h.finalizerObjects_eq ▸ consistent.finalizers_nodup
  finalizers_mem := by
    rw [h.finalizerObjects_eq, h.objects]
    exact consistent.finalizers_mem
  finalizers_pending := by
    rw [h.finalizerObjects_eq, h.memory]
    exact consistent.finalizers_pending
  weak_nodup := h.weakHolders.nodup_iff.mpr consistent.weak_nodup
  weak_iff := by
    intro o
    rw [h.weakHolders.mem_iff, h.mem_live, h.memory, h.types.weakSlot?_eq]
    exact consistent.weak_iff o
  roots_live := by
    intro o member
    have listed : o ∈ second.enumerated := List.mem_append_left _ member
    exact h.mem_live.mpr
      (mem_live_of_enumerated consistent traceable ((h.enumerated o).mp listed))

theorem traceable (h : first.Reordered second) (consistent : first.Consistent)
    (traceable : first.Traceable) : second.Traceable where
  scanners_live := by
    intro scan scanner o scanned
    have listed : o ∈ second.enumerated :=
      List.mem_append_right _ (List.mem_flatMap.mpr ⟨scan, scanner, scanned⟩)
    exact h.mem_live.mpr
      (mem_live_of_enumerated consistent traceable ((h.enumerated o).mp listed))
  children_live := by
    intro o member
    obtain ⟨children, reported, inside⟩ := traceable.children_live o (h.mem_live.mp member)
    rw [h.memory]
    obtain ⟨others, reported', same⟩ := h.types.exists_children reported
    exact ⟨others, reported', fun c member => h.mem_live.mpr (inside c ((same c).mp member))⟩

/-- The same objects are reached in both heaps. Towards the first one this needs that what is
    reached there is live, since only then its type is known to report anything. -/
theorem reachable_iff (h : first.Reordered second) (traceable : first.Traceable)
    {starts others : List Ref} (same : ∀ o, o ∈ others ↔ o ∈ starts)
    (starting : ∀ o ∈ starts, o ∈ first.live) {object : Ref} :
    second.types.Reachable second.memory others object ↔
      first.types.Reachable first.memory starts object := by
  rw [h.memory]
  refine ⟨fun reached => ?_, h.types.reachable fun o member => (same o).mpr member⟩
  induction reached with
  | start member => exact .start ((same _).mp member)
  | @child parent child found _ reported member ih =>
    obtain ⟨children, known, _⟩ := traceable.children_live _ (reachable_live traceable starting ih)
    obtain ⟨others, reported', listed⟩ := h.types.exists_children known
    rw [reported] at reported'
    cases reported'
    exact ih.child known ((listed _).mp member)

section

variable (h : first.Reordered second) (consistent : first.Consistent)
  (traceable : first.Traceable)

include h consistent traceable

theorem retained_iff {o : Ref} : second.Retained o ↔ first.Retained o := by
  refine h.reachable_iff traceable (fun s => ?_) (starts_live consistent traceable)
  rw [List.mem_append, List.mem_append, h.mem_rootObjects, h.finalizerObjects_eq]

theorem reached_eq : second.reached = first.reached := by
  classical
  rw [reached, reached, h.objects]
  apply List.filter_congr
  intro o _
  rw [decide_eq_decide]
  exact h.retained_iff consistent traceable

theorem unreached_eq : second.unreached = first.unreached := by
  classical
  rw [unreached, unreached, h.objects]
  apply List.filter_congr
  intro o _
  rw [decide_eq_decide]
  exact not_congr (h.retained_iff consistent traceable)

theorem bereft_perm : second.bereft.Perm first.bereft := by
  classical
  have same (o : Ref) : (second.Retained o ∧ ∃ target,
      second.types.weakTarget? second.memory o = some target ∧ ¬ second.Retained target ∧
        second.memory.isSurviving target = false) ↔
      (first.Retained o ∧ ∃ target, first.types.weakTarget? first.memory o = some target ∧
        ¬ first.Retained target ∧ first.memory.isSurviving target = false) := by
    rw [h.memory, h.types.weakTarget?_eq]
    simp only [h.retained_iff consistent traceable]
  rw [bereft, bereft]
  refine (h.weakHolders.filter _).trans (.of_eq ?_)
  apply List.filter_congr
  intro o _
  rw [decide_eq_decide]
  exact same o

theorem divided_eq {kept scheduled kept' scheduled' : List FinalizerEntry}
    (divides : Divides (first.types.Reachable first.memory) first.rootObjects
      first.finalizers.toList kept scheduled)
    (divides' : Divides (second.types.Reachable second.memory) second.rootObjects
      second.finalizers.toList kept' scheduled') : kept' = kept ∧ scheduled' = scheduled := by
  rw [h.finalizers] at divides'
  refine divides.unique (fun more sub o => ?_) divides'
  refine h.reachable_iff traceable (fun s => ?_) fun s member => ?_
  · rw [List.mem_append, List.mem_append, h.mem_rootObjects]
  · rcases List.mem_append.mp member with root | listed
    · exact rootObjects_live consistent traceable s root
    · exact mem_live_of_objects (consistent.finalizers_mem s (sub listed))

theorem length_rooted : second.rooted.length = first.rooted.length := by
  classical
  have live : second.live.Perm first.live := by
    rw [Heap.live, Heap.live, h.objects]
    exact h.external.append_left _
  rw [rooted, rooted]
  refine ((live.filter _).trans (.of_eq ?_)).length_eq
  apply List.filter_congr
  intro o _
  rw [decide_eq_decide]
  exact h.reachable_iff traceable (fun s => h.mem_rootObjects)
    (rootObjects_live consistent traceable)

end

end Reordered

variable [RawMemory σ]

/-- Two heaps after their sweeps agree on everything but the order of what was listed in different
    orders before. The journal holds what was given back to the raw memory, block by block. -/
structure SameEnd (first second : Heap σ) : Prop where
  objects : second.objects = first.objects
  finalizers : second.finalizers = first.finalizers
  headerWord : ∀ o, second.memory.headerWord o = first.memory.headerWord o
  payload : ∀ o, second.memory.payload o = first.memory.payload o
  weakHolders : ∀ o, o ∈ second.weakHolders.toList ↔ o ∈ first.weakHolders.toList
  heapSize : second.heapSize = first.heapSize
  stats : second.stats = first.stats
  host : second.host = first.host
  journal : second.journal = first.journal

section

variable {first second after after' : Heap σ} {cycle cycle' : Cycle}
  (reordered : first.Reordered second) (consistent : first.Consistent)
  (traceable : first.Traceable)

include reordered consistent traceable

theorem Reclaimed.cycle_eq (h : first.Reclaimed cycle after) (h' : second.Reclaimed cycle' after') :
    cycle' = cycle := by
  have scheduled := (reordered.divided_eq consistent traceable h.divides h'.divides).2
  have marked : cycle'.marked = cycle.marked := by
    have external := reordered.external.length_eq
    rw [Array.length_toList, Array.length_toList] at external
    rw [h'.marked, h.marked, reordered.reached_eq consistent traceable, external]
  have cleared : cycle'.weakrefsCleared = cycle.weakrefsCleared := by
    rw [h'.weakrefsCleared, h.weakrefsCleared]
    exact (reordered.bereft_perm consistent traceable).length_eq
  have freed : cycle'.freed = cycle.freed := by
    rw [h'.freed, h.freed, reordered.unreached_eq consistent traceable]
  have freedBytes : cycle'.freedBytes = cycle.freedBytes := by
    rw [h'.freedBytes, h.freedBytes, reordered.unreached_eq consistent traceable,
      reordered.bytes_eq]
  cases cycle
  cases cycle'
  simp only [Cycle.mk.injEq]
  exact ⟨marked, scheduled, cleared, freed, freedBytes⟩

theorem Reclaimed.sameEnd (h : first.Reclaimed cycle after) (h' : second.Reclaimed cycle' after') :
    after.SameEnd after' := by
  have same : cycle' = cycle := h.cycle_eq reordered consistent traceable h'
  subst same
  have bereft {o : Ref} : o ∈ second.bereft ↔ o ∈ first.bereft :=
    (reordered.bereft_perm consistent traceable).mem_iff
  have unreached := reordered.unreached_eq consistent traceable
  exact {
    objects := by
      rw [← Array.toList_inj, h'.objects, h.objects, reordered.reached_eq consistent traceable]
    finalizers := by
      rw [← Array.toList_inj]
      exact (reordered.divided_eq consistent traceable h.divides h'.divides).1
    headerWord := fun o => by rw [h'.headerWord, h.headerWord, reordered.memory]
    payload := by
      intro o
      by_cases emptied : o ∈ first.bereft
      · obtain ⟨slot, found, payload⟩ := h.payload_bereft o emptied
        obtain ⟨slot', found', payload'⟩ := h'.payload_bereft o (bereft.mpr emptied)
        rw [reordered.memory, reordered.types.weakSlot?_eq, found] at found'
        cases found'
        rw [payload', payload, reordered.memory]
      · rw [h'.payload_kept o (mt bereft.mp emptied), h.payload_kept o emptied, reordered.memory]
    weakHolders := by
      intro o
      rw [h'.weakHolders, h.weakHolders, reordered.weakHolders.mem_iff,
        reordered.retained_iff consistent traceable]
    heapSize := by
      have left := h.heapSize
      have left' := h'.heapSize
      rw [reordered.heapSize, reordered.bytes_eq, unreached] at left'
      exact UInt64.toNat_inj.mp (by omega)
    stats := by rw [h'.stats, h.stats, reordered.stats]
    host := by
      rw [h'.host, h.host, releasedHost, releasedHost, unreached, reordered.cost_eq,
        reordered.host]
    journal := by
      rw [← Array.toList_inj, h'.journal, h.journal, releasings, releasings, unreached,
        reordered.cost_eq, reordered.journal, reordered.heapSize, reordered.objects,
        reordered.length_rooted consistent traceable] }

end

end Heap

/-- Collections of two heaps that differ only in the order in which objects are enumerated, and in
    how often, schedule the same finalizers in the same order, free the same objects in the same
    order, and leave the same heap behind when their sweeps are over. -/
theorem Collector.collect_in_any_order {σ : Type} [RawMemory σ] {first second : Heap σ}
    (queues : Array (Ref → Program σ)) (reordered : first.Reordered second)
    (consistent : first.Consistent) (traceable : first.Traceable)
    (idle : first.collecting = false) :
    ∃ cycle after after', Heap.reclaim first = .ok cycle after ∧
      Heap.reclaim second = .ok cycle after' ∧
      collect ⟨first, queues⟩ = conclude cycle ⟨after, queues⟩ ∧
      collect ⟨second, queues⟩ = conclude cycle ⟨after', queues⟩ ∧ after.SameEnd after' := by
  obtain ⟨cycle, after, reclaimed, spec⟩ := Heap.exists_reclaimed consistent traceable
  obtain ⟨cycle', after', reclaimed', spec'⟩ := Heap.exists_reclaimed
    (reordered.consistent consistent traceable) (reordered.traceable consistent traceable)
  have same : cycle' = cycle := spec.cycle_eq reordered consistent traceable spec'
  subst same
  exact ⟨_, after, after', reclaimed, reclaimed', collect_eq_conclude idle reclaimed queues,
    collect_eq_conclude (reordered.collecting.trans idle) reclaimed' queues,
    spec.sameEnd reordered consistent traceable spec'⟩

def TypeTable.pairs (slots : List Word) : TypeTable :=
  ⟨#[{ name := "pair", layout := .fixed 24, weakOffset := some 16, trace := .slots slots }]⟩

theorem Trace.slots_reordered (view : View) {children : List Ref}
    (reported : slots [0, 8] view = .ok children) :
    ∃ others, slots [8, 0, 8] view = .ok others ∧ ∀ child, child ∈ others ↔ child ∈ children := by
  simp only [slots, List.mapM_cons, List.mapM_nil, bind, Except.bind, pure, Except.pure]
    at reported ⊢
  cases left : view.readRef 0 with
  | error fault =>
    rw [left] at reported
    cases reported
  | ok first =>
    cases right : view.readRef 8 with
    | error fault =>
      rw [left, right] at reported
      cases reported
    | ok second =>
      rw [left, right] at reported
      cases reported
      refine ⟨_, rfl, fun child => ?_⟩
      cases first <;> cases second <;> simp +contextual [or_comm]

theorem TypeTable.reordered_pairs : (pairs [0, 8]).Reordered (pairs [8, 0, 8]) := by
  rintro ⟨index⟩
  cases position : index.toNat with
  | zero =>
    simp only [get?, pairs, position]
    exact .some ⟨rfl, rfl, rfl, fun view _ => Trace.slots_reordered view⟩
  | succ n =>
    simp only [get?, pairs, position]
    exact .none

def Heap.sixPairs (slots : List Word) (roots : List Ref) (external weakHolders : Array Ref) :
    Heap SystemMemory where
  growth := {}
  types := .pairs slots
  host := { used := 20 }
  memory := (((((({} : Memory).writeWord .lowest 0 64).writeWord .lowest 16 112).writeWord
    ⟨64, by decide⟩ 0 16).writeWord ⟨64, by decide⟩ 16 160).writeWord
    ⟨112, by decide⟩ 8 64).writeWord ⟨208, by decide⟩ 16 160
  objects := #[.lowest, ⟨64, by decide⟩, ⟨112, by decide⟩, ⟨160, by decide⟩]
  external
  finalizers := #[{ object := ⟨112, by decide⟩, queue := ⟨0⟩, light := false }]
  weakHolders
  roots := { slots := (roots.map fun object => .occupied (some object)).toArray }
  heapSize := 128

def Heap.sixPairsInOrder : Heap SystemMemory :=
  sixPairs [0, 8] [.lowest, ⟨64, by decide⟩] #[⟨208, by decide⟩, ⟨256, by decide⟩]
    #[.lowest, ⟨64, by decide⟩, ⟨112, by decide⟩, ⟨160, by decide⟩, ⟨208, by decide⟩,
      ⟨256, by decide⟩]

def Heap.sixPairsShuffled : Heap SystemMemory :=
  sixPairs [8, 0, 8] [⟨64, by decide⟩, .lowest, ⟨64, by decide⟩]
    #[⟨256, by decide⟩, ⟨208, by decide⟩]
    #[⟨256, by decide⟩, ⟨112, by decide⟩, .lowest, ⟨208, by decide⟩, ⟨64, by decide⟩,
      ⟨160, by decide⟩]

theorem Heap.reordered_sixPairs : sixPairsInOrder.Reordered sixPairsShuffled where
  types := TypeTable.reordered_pairs
  enumerated := by
    intro o
    have first : sixPairsInOrder.enumerated = [.lowest, ⟨64, by decide⟩] := rfl
    have second : sixPairsShuffled.enumerated =
      [⟨64, by decide⟩, .lowest, ⟨64, by decide⟩] := rfl
    rw [first, second]
    simp +contextual [or_comm]
  external := by decide
  weakHolders := by decide
  growth := rfl
  host := rfl
  memory := rfl
  objects := rfl
  finalizers := rfl
  heapSize := rfl
  previousHeapSize := rfl
  collecting := rfl
  stats := rfl
  journal := rfl

theorem Heap.consistent_sixPairs : sixPairsInOrder.Consistent where
  types_valid := by
    intro typeId descriptor known
    rw [TypeTable.eq_of_get?_singleton known]
    rfl
  live_nodup := by decide
  unmarked := by decide
  sized := by decide +kernel
  heapSize := by decide
  finalizers_nodup := by decide
  finalizers_mem := by decide
  finalizers_pending := by decide
  weak_nodup := by decide
  weak_iff := by
    intro o
    have every : ∀ o ∈ sixPairsInOrder.live,
        (sixPairsInOrder.types.weakSlot? sixPairsInOrder.memory o).isSome := by decide +kernel
    exact ⟨fun member => ⟨member, every o member⟩, And.left⟩
  roots_live := by decide

theorem Heap.traceable_sixPairs : sixPairsInOrder.Traceable where
  scanners_live := nofun
  children_live := by decide +kernel

theorem Collector.collect_sixPairs :
    Heap.sixPairsInOrder.Reordered .sixPairsShuffled ∧ Heap.sixPairsInOrder.Consistent ∧
    Heap.sixPairsInOrder.Traceable ∧ Heap.sixPairsInOrder.collecting = false ∧
    ∃ cycle after after', Heap.reclaim .sixPairsInOrder = .ok cycle after ∧
      Heap.reclaim .sixPairsShuffled = .ok cycle after' ∧
      collect ⟨.sixPairsInOrder, #[]⟩ = conclude cycle ⟨after, #[]⟩ ∧
      collect ⟨.sixPairsShuffled, #[]⟩ = conclude cycle ⟨after', #[]⟩ ∧ after.SameEnd after' :=
  ⟨Heap.reordered_sixPairs, Heap.consistent_sixPairs, Heap.traceable_sixPairs, rfl,
    collect_in_any_order #[] Heap.reordered_sixPairs Heap.consistent_sixPairs
      Heap.traceable_sixPairs rfl⟩

end Reclaim
