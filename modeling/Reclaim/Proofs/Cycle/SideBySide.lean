import Reclaim.Proofs.Heap.SideBySide

namespace Reclaim

namespace Pairing

def Covers (pairing : Pairing) (first second : List Ref) : Prop :=
  ∀ a ∈ first, ∃ b ∈ second, pairing.Pairs a b

structure Matches (pairing : Pairing) (first second : List Ref) : Prop where
  covers : pairing.Covers first second
  covers' : pairing.flip.Covers second first

variable {pairing : Pairing} {first second more more' : List Ref} {a b : Ref}

theorem Covers.append (h : pairing.Covers first second) (h' : pairing.Covers more more') :
    pairing.Covers (first ++ more) (second ++ more') := by
  intro a member
  rcases List.mem_append.mp member with member | member
  · obtain ⟨b, listed, pair⟩ := h a member
    exact ⟨b, List.mem_append_left _ listed, pair⟩
  · obtain ⟨b, listed, pair⟩ := h' a member
    exact ⟨b, List.mem_append_right _ listed, pair⟩

theorem covers_of_forall₂ (h : List.Forall₂ pairing.Pairs first second) :
    pairing.Covers first second :=
  fun _ member => exists_of_forall₂ h member

theorem Matches.of_forall₂ (h : List.Forall₂ pairing.Pairs first second) :
    pairing.Matches first second :=
  ⟨covers_of_forall₂ h, covers_of_forall₂ (h.imp fun _ _ => pairs_flip.mpr).flip⟩

theorem Matches.append (h : pairing.Matches first second) (h' : pairing.Matches more more') :
    pairing.Matches (first ++ more) (second ++ more') :=
  ⟨h.covers.append h'.covers, h.covers'.append h'.covers'⟩

theorem Matches.singleton (pair : pairing.Pairs a b) : pairing.Matches [a] [b] :=
  .of_forall₂ (.cons pair .nil)

theorem forall₂_of_mem {α : Type} {related other : α → α → Prop} {l l' : List α}
    (h : List.Forall₂ related l l') (more : ∀ x y, x ∈ l → related x y → other x y) :
    List.Forall₂ other l l' := by
  induction h with
  | nil => exact .nil
  | cons relates _ ih =>
    exact .cons (more _ _ List.mem_cons_self relates)
      (ih fun x y member => more x y (List.mem_cons_of_mem _ member))

theorem zip_filter {p q : Ref → Bool} (same : second.length = first.length)
    (agree : ∀ a b, (a, b) ∈ first.zip second → p a = q b) :
    (second.filter q).length = (first.filter p).length ∧
      (first.filter p).zip (second.filter q) = (first.zip second).filter fun pair => p pair.1 := by
  induction first generalizing second with
  | nil =>
    have none : second = [] := List.eq_nil_of_length_eq_zero same
    subst none
    exact ⟨rfl, rfl⟩
  | cons a first ih =>
    cases second with
    | nil => cases same
    | cons b second =>
      have here := agree a b List.mem_cons_self
      obtain ⟨length, pairs⟩ := ih (Nat.succ.inj same) fun a b member =>
        agree a b (List.mem_cons_of_mem _ member)
      rw [List.zip_cons_cons]
      cases keep : p a with
      | true =>
        simp only [List.filter_cons, keep, ← here, if_true, List.zip_cons_cons, List.length_cons,
          length, pairs, and_self]
      | false =>
        simp only [List.filter_cons, keep, ← here, Bool.false_eq_true, if_false]
        exact ⟨length, pairs⟩

theorem eq_filter_of_sublist {α : Type} {l l' : List α} {p : α → Bool} (sub : l'.Sublist l)
    (nodup : l.Nodup) (same : ∀ x, x ∈ l' ↔ x ∈ l ∧ p x) : l' = l.filter p := by
  induction sub with
  | slnil => rfl
  | @cons l₁ l₂ x sub ih =>
    obtain ⟨fresh, nodup⟩ := List.nodup_cons.mp nodup
    have drop : ¬ p x = true := fun keep =>
      fresh (sub.subset ((same x).mpr ⟨List.mem_cons_self, keep⟩))
    rw [List.filter_cons_of_neg drop]
    refine ih nodup fun y => ⟨fun member => ?_, fun ⟨member, keep⟩ => ?_⟩
    · exact ⟨sub.subset member, ((same y).mp member).2⟩
    · exact (same y).mpr ⟨List.mem_cons_of_mem _ member, keep⟩
  | @cons_cons l₁ l₂ x sub ih =>
    obtain ⟨fresh, nodup⟩ := List.nodup_cons.mp nodup
    have keep : p x = true := ((same x).mp List.mem_cons_self).2
    rw [List.filter_cons_of_pos keep]
    refine congrArg (x :: ·) (ih nodup fun y => ⟨fun member => ?_, fun ⟨member, kept⟩ => ?_⟩)
    · exact ⟨sub.subset member, ((same y).mp (List.mem_cons_of_mem _ member)).2⟩
    · have listed := (same y).mpr ⟨List.mem_cons_of_mem _ member, kept⟩
      refine (List.mem_cons.mp listed).resolve_left ?_
      rintro rfl
      exact fresh member

end Pairing

section Divides

variable {pairing : Pairing} {reached reached' : List Ref → Ref → Prop}

theorem Divides.alike
    (same : ∀ starts starts', pairing.Matches starts starts' → ∀ a b, pairing.Pairs a b →
      (reached starts a ↔ reached' starts' b))
    {starts starts' : List Ref} {entries entries' kept kept' scheduled scheduled' :
      List FinalizerEntry}
    (matching : pairing.Matches starts starts')
    (alike : List.Forall₂ (FinalizerEntry.Alike pairing) entries entries')
    (h : Divides reached starts entries kept scheduled)
    (h' : Divides reached' starts' entries' kept' scheduled') :
    List.Forall₂ (FinalizerEntry.Alike pairing) kept kept' ∧
      List.Forall₂ (FinalizerEntry.Alike pairing) scheduled scheduled' := by
  induction h generalizing starts' entries' kept' scheduled' with
  | nil starts =>
    cases alike
    cases h'
    exact ⟨.nil, .nil⟩
  | @keep starts entry rest kept scheduled alive _ ih =>
    cases alike with
    | cons first alike =>
      have here := same _ _ matching _ _ first.object
      have matching := matching.append (.singleton first.object)
      cases h' with
      | keep _ more =>
        obtain ⟨kept, scheduled⟩ := ih matching alike more
        exact ⟨.cons first kept, scheduled⟩
      | schedule dead _ => exact absurd (here.mp alive) dead
  | @schedule starts entry rest kept scheduled dead _ ih =>
    cases alike with
    | cons first alike =>
      have here := same _ _ matching _ _ first.object
      have matching := matching.append (.singleton first.object)
      cases h' with
      | keep alive _ => exact absurd (here.mpr alive) dead
      | schedule _ more =>
        obtain ⟨kept, scheduled⟩ := ih matching alike more
        exact ⟨kept, .cons first scheduled⟩

end Divides

namespace Heap

variable {σ : Type} {slots : SlotMap} {heap other : Heap σ} {a b : Ref}

def scanned (heap : Heap σ) : List Ref :=
  heap.scanners.toList.flatMap fun scan => scan heap.host

def ScansAlike (heap other : Heap σ) : Prop :=
  ∀ a b, (heap.pairing other).Pairs a b → (a ∈ heap.scanned ↔ b ∈ other.scanned)

theorem ScansAlike.flip (h : heap.ScansAlike other) : other.ScansAlike heap := by
  intro b a pair
  rw [← pairing_flip] at pair
  exact (h a b (Pairing.pairs_flip.mp pair)).symm

theorem Traceable.scanned_live (traceable : heap.Traceable) (member : a ∈ heap.scanned) :
    a ∈ heap.live := by
  obtain ⟨scan, scanner, listed⟩ := List.mem_flatMap.mp member
  exact traceable.scanners_live scan scanner a listed

theorem Alike.biUnique (h : heap.Alike slots other) :
    Relator.BiUnique (heap.pairing other).Pairs :=
  ⟨fun _ _ _ pair pair' => (h.eq_iff_eq pair pair').mpr rfl,
    fun _ _ _ pair pair' => (h.eq_iff_eq pair pair').mp rfl⟩

structure Poised (slots : SlotMap) (heap other : Heap σ) : Prop where
  alike : heap.Alike slots other
  slotted : heap.types.Slotted slots
  consistent : heap.Consistent
  consistent' : other.Consistent
  refs : heap.RefsLive slots
  refs' : other.RefsLive slots
  traceable : heap.Traceable
  traceable' : other.Traceable
  scans : heap.ScansAlike other

namespace Poised

variable (h : heap.Poised slots other)

include h

theorem flip : other.Poised slots heap where
  alike := h.alike.flip
  slotted := h.alike.types ▸ h.slotted
  consistent := h.consistent'
  consistent' := h.consistent
  refs := h.refs'
  refs' := h.refs
  traceable := h.traceable'
  traceable' := h.traceable
  scans := h.scans.flip

theorem reachable {starts starts' : List Ref} (covers : (heap.pairing other).Covers starts starts')
    (reached : heap.types.Reachable heap.memory starts a) :
    ∃ b, (heap.pairing other).Pairs a b ∧ other.types.Reachable other.memory starts' b := by
  induction reached with
  | start member =>
    obtain ⟨b, listed, pair⟩ := covers _ member
    exact ⟨b, pair, .start listed⟩
  | @child parent child children _ reported member ih =>
    obtain ⟨parent', pair, reached'⟩ := ih
    obtain ⟨live, live'⟩ := mem_live_of_pairs pair
    have twins := h.alike.twins _ _ pair
    obtain ⟨cost, sized⟩ := h.consistent.sized parent live
    obtain ⟨known, reported₁, same⟩ := TypeTable.children_of_slotted h.slotted sized
    rw [reported] at reported₁
    cases reported₁
    -- the child is in a traced slot of its parent, and the twin has the counterpart in that slot
    obtain ⟨slot, traced, held⟩ := (same child).mp member
    have links := twins.target slot (TypeTable.mem_slotsOf.mpr (.inl traced))
    rw [held] at links
    obtain ⟨cost', sized'⟩ := h.consistent'.sized parent' live'
    obtain ⟨children', reported', same'⟩ := TypeTable.children_of_slotted h.flip.slotted sized'
    cases held' : TypeTable.target? other.memory parent' slot with
    | none =>
      rw [held'] at links
      cases links
    | some child' =>
      rw [held'] at links
      cases links with
      | some pair' =>
        refine ⟨child', pair', reached'.child reported' ((same' child').mpr ⟨slot, ?_, held'⟩)⟩
        rw [h.alike.types, twins.tracedSlots]
        exact traced

theorem reachable_iff {starts starts' : List Ref}
    (matching : (heap.pairing other).Matches starts starts')
    (pair : (heap.pairing other).Pairs a b) :
    heap.types.Reachable heap.memory starts a ↔ other.types.Reachable other.memory starts' b := by
  constructor
  · intro reached
    obtain ⟨b', pair', reached'⟩ := h.reachable matching.covers reached
    rwa [(h.alike.eq_iff_eq pair pair').mp rfl]
  · intro reached
    have covers := matching.covers'
    rw [pairing_flip] at covers
    obtain ⟨a', pair', reached'⟩ := h.flip.reachable covers reached
    rw [← pairing_flip] at pair'
    rwa [(h.alike.eq_iff_eq pair (Pairing.pairs_flip.mp pair')).mpr rfl]

theorem covers_scanned : (heap.pairing other).Covers heap.scanned other.scanned := by
  intro a member
  obtain ⟨b, pair⟩ := h.alike.exists_counterpart (h.traceable.scanned_live member)
  exact ⟨b, (h.scans a b pair).mp member, pair⟩

theorem matches_rootObjects :
    (heap.pairing other).Matches heap.rootObjects other.rootObjects := by
  have roots : (heap.pairing other).Matches heap.roots.objects other.roots.objects := by
    refine ⟨fun a member => ?_, fun b member => ?_⟩
    · obtain ⟨b, pair, listed⟩ := h.alike.roots.objects_left member
      exact ⟨b, listed, pair⟩
    · obtain ⟨a, pair, listed⟩ := h.alike.roots.flip.objects_left member
      exact ⟨a, listed, pair⟩
  have scanned : (heap.pairing other).Matches heap.scanned other.scanned := by
    refine ⟨h.covers_scanned, ?_⟩
    rw [pairing_flip]
    exact h.flip.covers_scanned
  have external : (heap.pairing other).Matches heap.external.toList other.external.toList := by
    refine .of_forall₂ (List.forall₂_iff_zip.mpr ⟨h.alike.length_external.symm, fun pair => ?_⟩)
    exact List.mem_append_right _ pair
  exact (roots.append scanned).append external

theorem matches_finalizerObjects :
    (heap.pairing other).Matches heap.finalizerObjects other.finalizerObjects :=
  .of_forall₂ (List.rel_map (fun _ _ alike => alike.object) h.alike.finalizers)

theorem retained_iff (pair : (heap.pairing other).Pairs a b) : heap.Retained a ↔ other.Retained b :=
  h.reachable_iff (h.matches_rootObjects.append h.matches_finalizerObjects) pair

theorem bereft : List.Forall₂ (heap.pairing other).Pairs heap.bereft other.bereft := by
  classical
  refine List.rel_filter (fun a b pair => ?_) h.alike.weakHolders
  have target := (h.alike.twins a b pair).weakTarget?
  have lost (t t' : Ref) (paired : (heap.pairing other).Pairs t t') :
      (¬ heap.Retained t ∧ heap.memory.isSurviving t = false) ↔
        (¬ other.Retained t' ∧ other.memory.isSurviving t' = false) := by
    rw [h.retained_iff paired, (h.alike.twins t t' paired).isSurviving]
  dsimp only
  rw [decide_eq_true_eq, decide_eq_true_eq, h.retained_iff pair, h.alike.types]
  refine and_congr_right fun _ => ?_
  revert target
  cases heap.types.weakTarget? heap.memory a <;> cases heap.types.weakTarget? other.memory b <;>
    intro target <;> cases target
  · simp
  · rename_i t t' paired
    simpa using lost t t' paired

theorem mem_bereft_iff (pair : (heap.pairing other).Pairs a b) :
    a ∈ heap.bereft ↔ b ∈ other.bereft :=
  List.rel_mem h.alike.biUnique pair h.bereft

theorem cost_eq (pair : (heap.pairing other).Pairs a b) : other.cost b = heap.cost a := by
  obtain ⟨cost, sized⟩ := h.consistent.sized a (mem_live_of_pairs pair).1
  have sized' := (h.alike.twins a b pair).allocationCost sized
  rw [← h.alike.types] at sized'
  rw [cost_eq_of_ok sized, cost_eq_of_ok sized']

theorem bytes_eq {objects objects' : List Ref}
    (paired : List.Forall₂ (heap.pairing other).Pairs objects objects') :
    other.bytes objects' = heap.bytes objects := by
  induction paired with
  | nil => rfl
  | cons pair _ ih => rw [bytes_cons, bytes_cons, h.cost_eq pair, ih]

theorem objects : List.Forall₂ (heap.pairing other).Pairs heap.objects.toList
    other.objects.toList :=
  List.forall₂_iff_zip.mpr
    ⟨h.alike.length_objects.symm, fun pair => List.mem_append_left _ pair⟩

theorem unreached : List.Forall₂ (heap.pairing other).Pairs heap.unreached other.unreached := by
  classical
  refine List.rel_filter (fun a b pair => ?_) h.objects
  dsimp only
  rw [decide_eq_true_eq, decide_eq_true_eq, h.retained_iff pair]

theorem reached : other.reached.length = heap.reached.length ∧
    ∀ a b, (a, b) ∈ heap.reached.zip other.reached ↔
      (a, b) ∈ heap.objects.toList.zip other.objects.toList ∧ heap.Retained a := by
  classical
  obtain ⟨length, pairs⟩ := @Pairing.zip_filter heap.objects.toList other.objects.toList
    (fun a => heap.Retained a) (fun b => other.Retained b) h.alike.length_objects
    (fun a b pair => decide_eq_decide.mpr (h.retained_iff (List.mem_append_left _ pair)))
  refine ⟨length, fun a b => ?_⟩
  rw [Heap.reached, Heap.reached, pairs, List.mem_filter, decide_eq_true_eq]

end Poised

section

variable [RawMemory σ] {after after' : Heap σ} {cycle cycle' : Cycle}

theorem Reclaimed.target?_eq (slotted : heap.types.Slotted slots) (r : heap.Reclaimed cycle after)
    {slot : Word} (inside : slot ∈ heap.types.slotsOf slots heap.memory a) :
    TypeTable.target? after.memory a slot =
      if a ∈ heap.bereft ∧ heap.types.weakSlot? heap.memory a = some slot then none
      else TypeTable.target? heap.memory a slot := by
  by_cases emptied : a ∈ heap.bereft
  · obtain ⟨weak, found, payload⟩ := r.payload_bereft a emptied
    rw [TypeTable.target?, payload, found]
    by_cases same : weak = slot
    · subst same
      rw [Payload.readWord_writeWord_self, if_pos ⟨emptied, rfl⟩]
      rfl
    · have member : weak ∈ heap.types.slotsOf slots heap.memory a :=
        TypeTable.mem_slotsOf.mpr (.inr found)
      have apart := (TypeTable.eq_or_apart slotted member inside).resolve_left same
      rw [Payload.readWord_writeWord_of_apart _ _ apart, if_neg (by simp [same])]
      rfl
  · rw [TypeTable.target?, r.payload_kept a emptied, if_neg (by simp [emptied])]
    rfl

theorem Reclaimed.byte_eq_of_offSlots (r : heap.Reclaimed cycle after) {i : Nat}
    (off : heap.types.OffSlots slots heap.memory a i) :
    (after.memory.payload a).byte i = (heap.memory.payload a).byte i := by
  by_contra changed
  obtain ⟨_, slot, found, first, last⟩ := r.byte_changed changed
  have outside := off slot (TypeTable.mem_slotsOf.mpr (.inr found))
  omega

section

variable (h : heap.Poised slots other) (r : heap.Reclaimed cycle after)
  (r' : other.Reclaimed cycle' after')

include h r r'

theorem Poised.divided :
    List.Forall₂ (FinalizerEntry.Alike (heap.pairing other)) after.finalizers.toList
        after'.finalizers.toList ∧
      List.Forall₂ (FinalizerEntry.Alike (heap.pairing other)) cycle.scheduled cycle'.scheduled :=
  Divides.alike (fun _ _ matching _ _ pair => h.reachable_iff matching pair)
    h.matches_rootObjects h.alike.finalizers r.divides r'.divides

theorem Poised.pairs_iff :
    (after.pairing after').Pairs a b ↔ (heap.pairing other).Pairs a b ∧ heap.Retained a := by
  rw [pairing, pairing, Pairing.Pairs, Pairing.Pairs, List.mem_append, List.mem_append, r.objects,
    r'.objects, r.external, r'.external, h.reached.2, or_and_right]
  refine or_congr_right ⟨fun pair => ⟨pair, ?_⟩, And.left⟩
  exact retained_of_external (List.of_mem_zip pair).1

theorem Poised.pairs_of_live (pair : (heap.pairing other).Pairs a b) (live : a ∈ after.live) :
    (after.pairing after').Pairs a b :=
  (h.pairs_iff r r').mpr ⟨pair, (r.mem_live.mp live).2⟩

theorem Poised.due_iff (pair : (heap.pairing other).Pairs a b) :
    a ∈ cycle.scheduled.map FinalizerEntry.object ↔
      b ∈ cycle'.scheduled.map FinalizerEntry.object :=
  List.rel_mem h.alike.biUnique pair
    (List.rel_map (fun _ _ alike => alike.object) (h.divided r r').2)

theorem Poised.count_eq (stats : Stats) : stats.count cycle' = stats.count cycle := by
  have external := h.alike.external
  have marked : cycle'.marked = cycle.marked := by rw [r'.marked, r.marked, h.reached.1, external]
  have cleared : cycle'.weakrefsCleared = cycle.weakrefsCleared := by
    rw [r'.weakrefsCleared, r.weakrefsCleared, h.bereft.length_eq]
  have freed : cycle'.freed = cycle.freed := by rw [r'.freed, r.freed, h.unreached.length_eq]
  have bytes : cycle'.freedBytes = cycle.freedBytes := by
    rw [r'.freedBytes, r.freedBytes, h.bytes_eq h.unreached]
  rw [Stats.count, Stats.count, marked, cleared, freed, bytes]

theorem Poised.twins (pair : (after.pairing after').Pairs a b) :
    after.types.Twins slots (after.pairing after') after.memory after'.memory a b := by
  have paired := ((h.pairs_iff r r').mp pair).1
  have twins := h.alike.twins a b paired
  have valid := h.consistent.types_valid
  have shape' := r'.sameShape h.consistent'.types_valid b
  have kept := h.refs.reclaimed h.slotted h.consistent r
  have emptied := h.mem_bereft_iff paired
  have due := h.due_iff r r' paired
  rw [h.alike.types] at shape'
  rw [r.types]
  refine twins.of_sameShape (r.sameShape valid a) shape' ?_ ?_ ?_
  · rw [r.headerWord, r'.headerWord, twins.headerWord]
    simp only [due]
  · intro slot inside
    have inside' : slot ∈ other.types.slotsOf slots other.memory b := by
      rw [h.alike.types, twins.slotsOf]
      exact inside
    have links : (heap.pairing other).Links (TypeTable.target? after.memory a slot)
        (TypeTable.target? after'.memory b slot) := by
      rw [r.target?_eq h.slotted inside, r'.target?_eq h.flip.slotted inside', h.alike.types,
        twins.weakSlot?]
      simp only [emptied]
      split
      · exact .none
      · exact twins.target slot inside
    have inside₁ : slot ∈ after.types.slotsOf slots after.memory a := by
      rw [r.types, TypeTable.slotsOf_congr (r.sameShape valid a)]
      exact inside
    have live := kept a (mem_live_of_pairs pair).1 slot inside₁
    revert links live
    cases TypeTable.target? after.memory a slot <;> cases TypeTable.target? after'.memory b slot <;>
      intro links live <;> cases links
    · exact .none
    · rename_i linked
      exact .some (h.pairs_of_live r r' linked (live _ rfl))
  · intro i off
    have off' : other.types.OffSlots slots other.memory b i := by
      rw [TypeTable.OffSlots, h.alike.types, twins.slotsOf]
      exact off
    rw [r.byte_eq_of_offSlots off, r'.byte_eq_of_offSlots off', twins.byte i off]

theorem Poised.entries_of_live {entries entries' : List FinalizerEntry}
    (alike : List.Forall₂ (FinalizerEntry.Alike (heap.pairing other)) entries entries')
    (live : ∀ entry ∈ entries, entry.object ∈ after.live) :
    List.Forall₂ (FinalizerEntry.Alike (after.pairing after')) entries entries' :=
  Pairing.forall₂_of_mem alike fun entry _ member same =>
    { same with object := h.pairs_of_live r r' same.object (live entry member) }

theorem Poised.scheduled : List.Forall₂ (FinalizerEntry.Alike (after.pairing after'))
    cycle.scheduled cycle'.scheduled :=
  h.entries_of_live r r' (h.divided r r').2 fun _ member =>
    mem_live_of_objects (r.mem_objects_of_scheduled h.consistent member)

theorem Poised.weakHolders :
    List.Forall₂ (heap.pairing other).Pairs after.weakHolders.toList after'.weakHolders.toList := by
  classical
  have kept : after.weakHolders.toList =
      heap.weakHolders.toList.filter fun o => heap.Retained o :=
    Pairing.eq_filter_of_sublist r.weakHolders_sublist h.consistent.weak_nodup fun o => by
      rw [r.weakHolders, decide_eq_true_eq]
  have kept' : after'.weakHolders.toList =
      other.weakHolders.toList.filter fun o => other.Retained o :=
    Pairing.eq_filter_of_sublist r'.weakHolders_sublist h.consistent'.weak_nodup fun o => by
      rw [r'.weakHolders, decide_eq_true_eq]
  rw [kept, kept']
  refine List.rel_filter (fun a b pair => ?_) h.alike.weakHolders
  dsimp only
  rw [decide_eq_true_eq, decide_eq_true_eq, h.retained_iff pair]

/-- Collections of heaps that are alike leave heaps that are alike. -/
theorem Poised.reclaimed : after.Alike slots after' := by
  have consistent := r.consistent h.consistent
  have consistent' := r'.consistent h.consistent'
  exact {
    growth := by rw [r'.growth, r.growth, h.alike.growth]
    types := by rw [r'.types, r.types, h.alike.types]
    heapSize := by
      have left := r.heapSize
      have left' := r'.heapSize
      rw [h.alike.heapSize, h.bytes_eq h.unreached] at left'
      exact UInt64.toNat_inj.mp (by omega)
    previousHeapSize := by rw [r'.previousHeapSize, r.previousHeapSize, h.alike.previousHeapSize]
    collecting := by rw [r'.collecting, r.collecting]
    stats := by rw [r'.stats, r.stats, h.alike.stats, h.count_eq r r']
    objects := by
      rw [← Array.length_toList, ← Array.length_toList, r'.objects, r.objects, h.reached.1]
    external := by rw [r'.external, r.external, h.alike.external]
    distinct := consistent.live_nodup
    distinct' := consistent'.live_nodup
    twins := fun _ _ pair => h.twins r r' pair
    finalizers := h.entries_of_live r r' (h.divided r r').1 fun _ member =>
      mem_live_of_objects (consistent.finalizers_mem _ (List.mem_map_of_mem member))
    weakHolders := Pairing.forall₂_of_mem (h.weakHolders r r') fun a _ member pair =>
      h.pairs_of_live r r' pair ((consistent.weak_iff a).mp member).1
    roots := by
      have roots := consistent.roots_live
      rw [r.roots] at roots
      rw [r'.roots, r.roots]
      exact h.alike.roots.restrict fun a _ member pair => h.pairs_of_live r r' pair (roots a member) }

end

end

end Heap

end Reclaim
