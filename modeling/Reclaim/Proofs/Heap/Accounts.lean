import Mathlib.Data.List.Perm.Basic
import Mathlib.Order.Interval.Finset.Nat
import Reclaim.Proofs.Cycle.Aftermath
import Reclaim.Proofs.Cycle.Exactness
import Reclaim.Proofs.Heap.Preservation

namespace Reclaim

def Ledger.Apart (a b : Ref × Word) : Prop :=
  a.1.word.toNat + a.2.toNat ≤ b.1.word.toNat ∨ b.1.word.toNat + b.2.toNat ≤ a.1.word.toNat

def Ledger.Fits (ledger : Ledger) (block : Ref × Word) : Prop :=
  block.1.word.toNat + block.2.toNat ≤ UInt64.size ∧
    ∀ other ∈ ledger.held, Ledger.Apart other block

namespace Ledger

instance (a b : Ref × Word) : Decidable (Apart a b) :=
  inferInstanceAs (Decidable (_ ∨ _))

instance (ledger : Ledger) (block : Ref × Word) : Decidable (ledger.Fits block) :=
  inferInstanceAs (Decidable (_ ∧ ∀ other ∈ ledger.held, Apart other block))

def addresses : List (Ref × Word) → Finset Nat
  | [] => ∅
  | block :: rest =>
    Finset.Ico block.1.word.toNat (block.1.word.toNat + block.2.toNat) ∪ addresses rest

theorem mem_addresses {blocks : List (Ref × Word)} {address : Nat} :
    address ∈ addresses blocks ↔ ∃ block ∈ blocks,
      block.1.word.toNat ≤ address ∧ address < block.1.word.toNat + block.2.toNat := by
  induction blocks with
  | nil => simp [addresses]
  | cons block rest ih =>
    rw [addresses, Finset.mem_union, Finset.mem_Ico]
    simp only [List.mem_cons, exists_eq_or_imp]
    exact or_congr_right ih

theorem card_addresses {blocks : List (Ref × Word)} (apart : blocks.Pairwise Apart) :
    (addresses blocks).card = (blocks.map fun block => block.2.toNat).sum := by
  induction blocks with
  | nil => rfl
  | cons block rest ih =>
    obtain ⟨others, apart⟩ := List.pairwise_cons.mp apart
    -- blocks that are apart have no address in common, so their sizes add up
    have disjoint : Disjoint
        (Finset.Ico block.1.word.toNat (block.1.word.toNat + block.2.toNat)) (addresses rest) := by
      rw [Finset.disjoint_left]
      intro address inside shared
      obtain ⟨other, member, low, high⟩ := mem_addresses.mp shared
      have far := others other member
      simp only [Apart] at far
      rw [Finset.mem_Ico] at inside
      omega
    rw [addresses, Finset.card_union_of_disjoint disjoint, Nat.card_Ico, List.map_cons,
      List.sum_cons, ← ih apart]
    omega

theorem sum_lt_of_apart {blocks : List (Ref × Word)} (apart : blocks.Pairwise Apart)
    (bounded : ∀ block ∈ blocks, block.1.word.toNat + block.2.toNat ≤ UInt64.size) :
    (blocks.map fun block => block.2.toNat).sum < UInt64.size := by
  have inside : addresses blocks ⊆ Finset.Ico 1 UInt64.size := by
    intro address member
    obtain ⟨block, listed, low, high⟩ := mem_addresses.mp member
    have bound := bounded block listed
    have positive : 0 < block.1.word.toNat := by
      refine Nat.pos_of_ne_zero fun zero => block.1.word_ne_zero ?_
      exact UInt64.toNat_inj.mp zero
    rw [Finset.mem_Ico]
    omega
  have card := Finset.card_le_card inside
  rw [card_addresses apart, Nat.card_Ico] at card
  simp only [UInt64.size] at card ⊢
  omega

end Ledger

namespace Heap

variable {σ : Type} {before after heap : Heap σ}

def ledger (heap : Heap σ) : Ledger :=
  .of heap.journal.toList

structure Accounted (heap : Heap σ) : Prop where
  strays : heap.ledger.strays = []
  held_perm : (heap.ledger.held.map Prod.fst).Perm heap.live
  objects_sublist : heap.objects.toList.Sublist (heap.ledger.held.map Prod.fst)
  external_sublist : heap.external.toList.Sublist (heap.ledger.held.map Prod.fst)
  sizes : ∀ block ∈ heap.ledger.held,
    heap.types.allocationCost heap.memory block.1 = .ok block.2
  apart : heap.ledger.held.Pairwise Ledger.Apart
  bounded : ∀ block ∈ heap.ledger.held,
    block.1.word.toNat + block.2.toNat ≤ UInt64.size

theorem Accounted.held_nodup (accounted : heap.Accounted) (nodup : heap.live.Nodup) :
    heap.ledger.held.Nodup :=
  List.Nodup.of_map Prod.fst (accounted.held_perm.nodup_iff.mpr nodup)

theorem Accounted.mem_held (accounted : heap.Accounted) {object : Ref} (live : object ∈ heap.live) :
    (object, heap.cost object) ∈ heap.ledger.held := by
  obtain ⟨⟨o, size⟩, member, rfl⟩ := List.mem_map.mp (accounted.held_perm.mem_iff.mpr live)
  have known := accounted.sizes _ member
  rw [cost_eq_of_ok known]
  exact member

theorem Accounted.header_room (accounted : heap.Accounted) {object : Ref}
    (live : object ∈ heap.live) : 8 ≤ (heap.cost object).toNat :=
  TypeTable.allocationCost_pos (accounted.sizes _ (accounted.mem_held live))

theorem Accounted.live_of_held (accounted : heap.Accounted) {block : Ref × Word}
    (member : block ∈ heap.ledger.held) : block.1 ∈ heap.live :=
  accounted.held_perm.mem_iff.mp (List.mem_map_of_mem member)

theorem Accounted.held_eq_cost (accounted : heap.Accounted) {block : Ref × Word}
    (member : block ∈ heap.ledger.held) : block = (block.1, heap.cost block.1) := by
  rw [cost_eq_of_ok (accounted.sizes block member)]

theorem Accounted.mem_held_blocks (accounted : heap.Accounted) {objects : List Ref}
    (sub : ∀ o ∈ objects, o ∈ heap.live) :
    ∀ block ∈ heap.blocks objects, block ∈ heap.ledger.held := by
  rintro ⟨o, size⟩ member
  obtain ⟨listed, rfl⟩ := mem_blocks.mp member
  exact accounted.mem_held (sub o listed)

theorem Accounted.filter_blocks (accounted : heap.Accounted) (objects : List Ref) :
    heap.ledger.held.filter (· ∉ heap.blocks objects) =
      heap.ledger.held.filter (·.1 ∉ objects) := by
  apply List.filter_congr
  intro block member
  rw [decide_eq_decide, not_iff_not, accounted.held_eq_cost member, mem_blocks]
  exact and_iff_left rfl

theorem Accounted.fresh_of_fits (accounted : heap.Accounted) {object : Ref} {cost : Word}
    (fits : heap.ledger.Fits (object, cost)) (positive : 0 < cost.toNat) :
    object ∉ heap.live := by
  intro live
  have member := accounted.mem_held live
  have size := accounted.header_room live
  have apart := fits.2 _ member
  simp only [Ledger.Apart] at apart
  omega

theorem ledger_of_quiet {events : List Event}
    (journal : after.journal.toList = before.journal.toList ++ events) (grant : grants events = [])
    (release : releases events = []) : after.ledger = before.ledger := by
  rw [ledger, journal, Ledger.of_append, Ledger.enterAll_of_quiet grant release, ledger]

theorem Aside.ledger_eq (h : before.Aside after) : after.ledger = before.ledger := by
  obtain ⟨events, journal, grant, release⟩ := h.journal
  exact ledger_of_quiet journal grant release

theorem Aside.accounted (accounted : before.Accounted) (h : before.Aside after) :
    after.Accounted := by
  have same := h.ledger_eq
  exact {
    strays := same ▸ accounted.strays
    held_perm := by
      rw [same, h.live_eq]
      exact accounted.held_perm
    objects_sublist := by
      rw [same, h.objects]
      exact accounted.objects_sublist
    external_sublist := by
      rw [same, h.external]
      exact accounted.external_sublist
    sizes := by
      rw [same, h.types, h.memory]
      exact accounted.sizes
    apart := same ▸ accounted.apart
    bounded := same ▸ accounted.bounded }

theorem Wrote.accounted (accounted : before.Accounted) {object : Ref} {offset : Nat}
    {bytes : List UInt8} (h : before.Wrote after object offset bytes) : after.Accounted := by
  have shape := h.sameShape
  rw [h.after_eq] at shape ⊢
  exact {
    accounted with
    sizes := by
      intro block member
      exact (TypeTable.allocationCost_congr (shape block.1)).trans (accounted.sizes block member) }

theorem Accounted.bytes_le (accounted : heap.Accounted) :
    heap.bytes heap.objects.toList ≤ (heap.ledger.held.map fun block => block.2.toNat).sum := by
  have sizes : heap.ledger.held.map (fun block => block.2.toNat) =
      (heap.ledger.held.map Prod.fst).map fun o => (heap.cost o).toNat := by
    rw [List.map_map]
    apply List.map_congr_left
    intro block member
    rw [accounted.held_eq_cost member]
    rfl
  rw [sizes, (accounted.held_perm.map _).sum_eq, live, List.map_append, List.sum_append]
  exact Nat.le_add_right _ _

/-- The heap size cannot overflow: its objects have to fit into the address space. -/
theorem Accounted.room (accounted : heap.Accounted) (consistent : heap.Consistent) {object : Ref}
    {cost : Word} (fits : heap.ledger.Fits (object, cost)) :
    heap.heapSize.toNat + cost.toNat < UInt64.size := by
  have held := accounted.bytes_le
  have total := @Ledger.sum_lt_of_apart (heap.ledger.held ++ [(object, cost)])
    (by
      rw [List.pairwise_append]
      refine ⟨accounted.apart, List.pairwise_singleton _ _, ?_⟩
      intro block old new member
      rw [List.mem_singleton.mp member]
      exact fits.2 block old)
    (by
      intro block member
      rw [List.mem_append, List.mem_singleton] at member
      rcases member with old | rfl
      · exact accounted.bounded block old
      · exact fits.1)
  rw [List.map_append, List.sum_append, List.map_singleton, List.sum_singleton] at total
  dsimp only at total
  rw [consistent.heapSize]
  omega

section

variable [RawMemory σ]

theorem Granted.ledger_eq {request : Request} {cost : Word} {object : Ref}
    (h : before.Granted after request cost object) :
    after.ledger = { before.ledger with held := before.ledger.held ++ [(object, cost)] } := by
  rw [ledger, h.journal, Ledger.of_append]
  rfl

theorem Granted.accounted (accounted : before.Accounted) {request : Request} {cost : Word}
    {object : Ref} (h : before.Granted after request cost object) (fresh : object ∉ before.live)
    (fits : before.ledger.Fits (object, cost)) {queues : Nat} {descriptor : Descriptor}
    (admitted : request.Admitted before.types queues cost descriptor) : after.Accounted := by
  have held := h.ledger_eq
  have other {block : Ref × Word} (member : block ∈ before.ledger.held) : object ≠ block.1 := by
    rintro rfl
    exact fresh (accounted.live_of_held member)
  exact {
    strays := by
      rw [held]
      exact accounted.strays
    held_perm := by
      rw [held, live, h.objects, h.external, List.map_append]
      have grown : (before.ledger.held.map Prod.fst ++ [object]).Perm (before.live ++ [object]) :=
        accounted.held_perm.append_right [object]
      refine grown.trans ?_
      cases request.isExternal with
      | true =>
        simp only [if_true, List.append_nil, ← List.append_assoc]
        exact .refl _
      | false =>
        simp only [live, Bool.false_eq_true, if_false, List.append_nil, List.append_assoc]
        exact List.Perm.append_left _ (List.perm_append_comm)
    objects_sublist := by
      rw [held, h.objects, List.map_append]
      refine accounted.objects_sublist.append ?_
      split
      · exact List.nil_sublist _
      · exact List.Sublist.refl _
    external_sublist := by
      rw [held, h.external, List.map_append]
      refine accounted.external_sublist.append ?_
      split
      · exact List.Sublist.refl _
      · exact List.nil_sublist _
    sizes := by
      intro block member
      rw [held, List.mem_append, List.mem_singleton] at member
      rw [h.types]
      rcases member with old | rfl
      · exact (TypeTable.allocationCost_congr (h.sameShape (other old))).trans
          (accounted.sizes block old)
      · refine Request.allocationCost_of_admitted admitted h.typeId ?_
        rw [h.payload, if_pos rfl]
    apart := by
      rw [held, List.pairwise_append]
      refine ⟨accounted.apart, List.pairwise_singleton _ _, ?_⟩
      intro block old new member
      rw [List.mem_singleton.mp member]
      exact fits.2 block old
    bounded := by
      intro block member
      rw [held, List.mem_append, List.mem_singleton] at member
      rcases member with old | rfl
      · exact accounted.bounded block old
      · exact fits.1 }

omit [RawMemory σ] in
theorem Accounted.enterAll_releasings (accounted : before.Accounted) (nodup : before.live.Nodup)
    {objects : List Ref} (sub : ∀ o ∈ objects, o ∈ before.live) (once : objects.Nodup) :
    before.ledger.enterAll (before.releasings objects) =
      { before.ledger with held := before.ledger.held.filter (·.1 ∉ objects) } := by
  rw [releasings_eq, Ledger.enterAll_released (accounted.held_nodup nodup) _
    (List.Nodup.of_map Prod.fst (by rwa [map_fst_blocks])) (accounted.mem_held_blocks sub)]
  rw [accounted.filter_blocks]

omit [RawMemory σ] in
theorem Accounted.ledger_of_releasings (accounted : before.Accounted) (nodup : before.live.Nodup)
    {marking : List Event} (grant : grants marking = []) (release : releases marking = [])
    {objects : List Ref} (sub : ∀ o ∈ objects, o ∈ before.live) (once : objects.Nodup)
    (journal : after.journal.toList =
      before.journal.toList ++ (marking ++ before.releasings objects)) :
    after.ledger =
      { before.ledger with held := before.ledger.held.filter (·.1 ∉ objects) } := by
  rw [ledger, journal, Ledger.of_append, Ledger.enterAll_append,
    Ledger.enterAll_of_quiet grant release]
  exact accounted.enterAll_releasings nodup sub once

omit [RawMemory σ] in
theorem Accounted.settled (accounted : before.Accounted) (nodup : before.live.Nodup)
    (journal : after.journal.toList = before.journal.toList ++ before.releasings before.live) :
    after.ledger = {} := by
  have settled := accounted.ledger_of_releasings nodup (show grants [] = [] from rfl)
    (show releases [] = [] from rfl) (fun o member => member) nodup journal
  have none : before.ledger.held.filter (·.1 ∉ before.live) = [] := by
    rw [List.filter_eq_nil_iff]
    intro block member
    simpa using accounted.live_of_held member
  rw [settled, none]
  exact congrArg (Ledger.mk []) accounted.strays

theorem Cleared.accounted (accounted : before.Accounted) (nodup : before.live.Nodup)
    (h : before.Cleared after) : after.Accounted := by
  have settled := accounted.settled nodup h.journal
  exact {
    strays := by rw [settled]
    held_perm := by
      rw [settled, live, h.objects, h.external]
      exact .refl _
    objects_sublist := by
      rw [h.objects]
      exact List.nil_sublist _
    external_sublist := by
      rw [h.external]
      exact List.nil_sublist _
    sizes := by
      rw [settled]
      simp
    apart := by
      rw [settled]
      exact List.Pairwise.nil
    bounded := by
      rw [settled]
      simp }

theorem Reclaimed.grants_eq {cycle : Cycle} (h : before.Reclaimed cycle after) :
    grants after.journal.toList = grants before.journal.toList := by
  have released : grants (before.releasings before.unreached) = [] := by
    rw [releasings, grants, List.filterMap_map]
    exact List.filterMap_eq_nil_iff.mpr fun _ _ => rfl
  have scheduled := grants_schedulings cycle.scheduled
  rw [grants] at released scheduled
  simp only [h.journal, grants, List.cons_append, List.filterMap_append, List.filterMap_cons,
    Event.grant?, List.filterMap_nil, List.append_nil, released, scheduled]

theorem Reclaimed.ledger_eq (accounted : before.Accounted) (consistent : before.Consistent)
    {cycle : Cycle} (h : before.Reclaimed cycle after) :
    after.ledger =
      { before.ledger with held := before.ledger.held.filter (·.1 ∉ before.unreached) } := by
  have nodup := List.nodup_append.mp consistent.live_nodup
  refine accounted.ledger_of_releasings consistent.live_nodup ?_ ?_ ?_
    (nodup.1.sublist before.unreached_sublist) h.journal
  · simp only [List.cons_append, grants, List.filterMap_cons, Event.grant?,
      List.filterMap_append, List.filterMap_nil, List.append_nil]
    exact grants_schedulings cycle.scheduled
  · simp only [List.cons_append, releases, List.filterMap_cons, Event.release?,
      List.filterMap_append, List.filterMap_nil, List.append_nil]
    exact releases_schedulings cycle.scheduled
  · intro o member
    exact mem_live_of_objects (before.unreached_sublist.subset member)

theorem Reclaimed.accounted (accounted : before.Accounted) (consistent : before.Consistent)
    {cycle : Cycle} (h : before.Reclaimed cycle after) : after.Accounted := by
  have held := h.ledger_eq accounted consistent
  have nodup := List.nodup_append.mp consistent.live_nodup
  have firsts : (before.ledger.held.filter (·.1 ∉ before.unreached)).map Prod.fst =
      (before.ledger.held.map Prod.fst).filter (· ∉ before.unreached) := by
    rw [List.filter_map]
    rfl
  have survivors : after.objects.toList = before.objects.toList.filter (· ∉ before.unreached) := by
    classical
    rw [h.objects, reached]
    apply List.filter_congr
    intro o member
    rw [decide_eq_decide, mem_unreached, not_and, not_not]
    exact ⟨fun retained _ => retained, fun retained => retained member⟩
  -- external objects are starts of every collection, so none of their blocks is given back
  have immortals : after.external.toList = before.external.toList.filter (· ∉ before.unreached) := by
    rw [h.external, eq_comm, List.filter_eq_self]
    intro o member
    rw [decide_eq_true_eq, mem_unreached]
    exact fun lost => lost.2 (retained_of_external member)
  exact {
    strays := by
      rw [held]
      exact accounted.strays
    held_perm := by
      rw [held, firsts, live, survivors, immortals, ← List.filter_append]
      exact accounted.held_perm.filter _
    objects_sublist := by
      rw [held, firsts, survivors]
      exact accounted.objects_sublist.filter _
    external_sublist := by
      rw [held, firsts, immortals]
      exact accounted.external_sublist.filter _
    sizes := by
      intro block member
      rw [held] at member
      have old := (List.mem_filter.mp member).1
      rw [h.types]
      exact (TypeTable.allocationCost_congr
        (h.sameShape consistent.types_valid block.1)).trans (accounted.sizes block old)
    apart := by
      rw [held]
      exact accounted.apart.filter _
    bounded := by
      intro block member
      rw [held] at member
      exact accounted.bounded block (List.mem_filter.mp member).1 }

theorem Accounted.releaseAll (accounted : heap.Accounted) (consistent : heap.Consistent) :
    ∃ last, Heap.releaseAll heap = .ok () last ∧ last.live = [] ∧ last.ledger = {} := by
  refine ⟨_, releaseAll_eq_ok heap consistent.sized, rfl, ?_⟩
  apply accounted.settled consistent.live_nodup
  simp [releasing]

end

end Heap

end Reclaim
