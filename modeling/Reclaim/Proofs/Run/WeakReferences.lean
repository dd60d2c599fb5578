import Reclaim.Proofs.Run.References

namespace Reclaim

namespace Heap

variable {σ : Type}

def emptied (before after : Heap σ) : List Ref :=
  after.live.filter fun o => (before.types.weakSlot? before.memory o).any fun slot =>
    before.memory.readWord o slot ≠ 0 ∧ after.memory.readWord o slot = 0

/-- What the sweep of a collection leaves of the payloads, in terms of the heap that the collection
    started from. -/
structure WeakExact (before after : Heap σ) : Prop where
  cleared : ∀ o ∈ after.live, ∀ slot, before.types.weakSlot? before.memory o = some slot →
    (before.memory.readWord o slot = 0 ∨ ∃ target ∈ before.live,
      before.memory.readWord o slot = target.word ∧ target ∉ after.live) →
    after.memory.readWord o slot = 0
  kept : ∀ o ∈ after.live, ∀ slot, before.types.weakSlot? before.memory o = some slot →
    ∀ target ∈ after.live, before.memory.readWord o slot = target.word →
      after.memory.readWord o slot = target.word
  counted : after.stats.weakrefsCleared =
    before.stats.weakrefsCleared + (before.emptied after).length
  untouched : ∀ o i, (after.memory.payload o).byte i ≠ (before.memory.payload o).byte i →
    o ∈ before.emptied after ∧ ∃ slot, before.types.weakSlot? before.memory o = some slot ∧
      slot.toNat ≤ i ∧ i < slot.toNat + 8

variable {before after : Heap σ} {o target : Ref} {slot : Word}

theorem mem_emptied : o ∈ before.emptied after ↔ o ∈ after.live ∧
    ∃ slot, before.types.weakSlot? before.memory o = some slot ∧
      before.memory.readWord o slot ≠ 0 ∧ after.memory.readWord o slot = 0 := by
  simp only [emptied, List.mem_filter, Option.any_eq_true, decide_eq_true_eq]

theorem weakTarget?_eq_some (found : before.types.weakSlot? before.memory o = some slot) :
    before.types.weakTarget? before.memory o = some target ↔
      before.memory.readWord o slot = target.word := by
  rw [TypeTable.weakTarget?, found, Option.bind_eq_bind, Option.bind_some, Memory.readRef]
  constructor
  · intro held
    have same := Ref.slotWord_ofWord? (before.memory.readWord o slot)
    rw [held] at same
    exact same.symm
  · intro held
    rw [held]
    exact Ref.ofWord?_slotWord (some target)

variable [RawMemory σ] {cycle : Cycle}

namespace Reclaimed

theorem readWord_of_not_bereft (h : before.Reclaimed cycle after) (kept : o ∉ before.bereft)
    (offset : Word) : after.memory.readWord o offset = before.memory.readWord o offset := by
  rw [Memory.readWord, Memory.readWord, h.payload_kept o kept]

theorem readWord_of_bereft (h : before.Reclaimed cycle after) (lost : o ∈ before.bereft)
    (found : before.types.weakSlot? before.memory o = some slot) :
    after.memory.readWord o slot = 0 := by
  obtain ⟨slot', found', payload⟩ := h.payload_bereft o lost
  rw [found] at found'
  cases found'
  rw [Memory.readWord, payload, Payload.readWord_writeWord_self]

theorem mem_bereft_iff (consistent : before.Consistent) (h : before.Reclaimed cycle after)
    (live : o ∈ after.live) (found : before.types.weakSlot? before.memory o = some slot)
    (known : target ∈ before.live) (held : before.memory.readWord o slot = target.word) :
    o ∈ before.bereft ↔ target ∉ after.live :=
  h.mem_bereft_iff_of_weakTarget consistent live ((weakTarget?_eq_some found).mpr held) known

theorem mem_emptied_iff (consistent : before.Consistent) (h : before.Reclaimed cycle after) :
    o ∈ before.emptied after ↔ o ∈ before.bereft := by
  rw [mem_emptied]
  constructor
  · rintro ⟨_, slot, _, held, empty⟩
    by_contra kept
    rw [h.readWord_of_not_bereft kept] at empty
    exact held empty
  · intro lost
    obtain ⟨holder, retained, target, points, _⟩ := mem_bereft.mp lost
    obtain ⟨live, weak⟩ := (consistent.weak_iff o).mp holder
    obtain ⟨slot, found⟩ := Option.isSome_iff_exists.mp weak
    refine ⟨h.mem_live.mpr ⟨live, retained⟩, slot, found, ?_, h.readWord_of_bereft lost found⟩
    rw [(weakTarget?_eq_some found).mp points]
    exact target.word_ne_zero

theorem length_emptied (consistent : before.Consistent) (h : before.Reclaimed cycle after) :
    (before.emptied after).length = before.bereft.length := by
  apply List.Perm.length_eq
  have first : (before.emptied after).Nodup := (h.consistent consistent).live_nodup.filter _
  have second : before.bereft.Nodup := consistent.weak_nodup.filter _
  rw [List.perm_ext_iff_of_nodup first second]
  exact fun o => h.mem_emptied_iff consistent

theorem weakExact (consistent : before.Consistent) (h : before.Reclaimed cycle after) :
    before.WeakExact after where
  cleared := by
    rintro o live slot found (nothing | ⟨target, known, held, dead⟩)
    · by_cases lost : o ∈ before.bereft
      · exact h.readWord_of_bereft lost found
      · exact (h.readWord_of_not_bereft lost slot).trans nothing
    · exact h.readWord_of_bereft
        ((h.mem_bereft_iff consistent live found known held).mpr dead) found
  kept := by
    intro o live slot found target survives held
    have known := (h.mem_live.mp survives).1
    have unemptied := (h.mem_bereft_iff consistent live found known held).not_left.mpr survives
    rw [h.readWord_of_not_bereft unemptied, held]
  counted := by
    rw [h.stats, h.length_emptied consistent, ← h.weakrefsCleared]
    rfl
  untouched := by
    intro o i changed
    obtain ⟨lost, slot, found, inside⟩ := h.byte_changed changed
    exact ⟨(h.mem_emptied_iff consistent).mpr lost, slot, found, inside⟩

end Reclaimed

end Heap

variable {σ : Type} [RawMemory σ]

/-- A collection of an idle heap gets through its sweep, and then every weak slot of a live object
    is exact: it is emptied if its target has not survived and left alone otherwise, and nothing
    else has been written. At every point of a run that keeps the contract the weak registry lists,
    each once, the live objects whose types have a weak slot, however they were allocated. -/
theorem weak_references_exact :
    (∀ (heap : Heap σ) (queues : Array (Ref → Program σ)), heap.Consistent → heap.Traceable →
      heap.collecting = false → ∃ cycle after, Heap.reclaim heap = .ok cycle after ∧
        Collector.collect ⟨heap, queues⟩ = Collector.conclude cycle ⟨after, queues⟩ ∧
          heap.WeakExact after) ∧
    ∀ (types : TypeTable) (growth : Growth) (host : σ) (program : Program σ) (point : Point σ),
      types.Valid →
      Runs Point.Lawful (.start { heap := { growth, types, host } } program) point →
        point.collector.heap.weakHolders.toList.Nodup ∧
        ∀ o, o ∈ point.collector.heap.weakHolders.toList ↔ o ∈ point.collector.heap.live ∧
          ∃ descriptor slot, descriptor.weakOffset = some slot ∧
            point.collector.heap.types.get? (point.collector.heap.memory.header o).typeId =
              some descriptor := by
  constructor
  · intro heap queues consistent traceable idle
    obtain ⟨cycle, after, reclaimed, spec⟩ := Heap.exists_reclaimed consistent traceable
    exact ⟨cycle, after, reclaimed, Collector.collect_eq_conclude idle reclaimed queues,
      spec.weakExact consistent⟩
  · intro types growth host program point valid run
    have consistent := ((Sound.start valid growth host program).of_runs run).consistent
    refine ⟨consistent.weak_nodup, fun o => ?_⟩
    rw [consistent.weak_iff, TypeTable.weakSlot?, Option.isSome_iff_exists]
    simp only [Option.bind_eq_bind, Option.bind_eq_some_iff]
    refine and_congr_right fun _ => ⟨?_, ?_⟩
    · rintro ⟨slot, descriptor, known, weak⟩
      exact ⟨descriptor, slot, weak, known⟩
    · rintro ⟨descriptor, slot, weak, known⟩
      exact ⟨slot, descriptor, known, weak⟩

def TypeTable.holders : TypeTable :=
  ⟨#[{ name := "holder", layout := .fixed 16, weakOffset := some 8, trace := .slots [0] }]⟩

theorem TypeTable.valid_holders : holders.Valid := by
  intro typeId descriptor known
  rw [eq_of_get?_singleton known]
  rfl

def Heap.threeHolders : Heap SystemMemory where
  growth := {}
  types := .holders
  host := { used := 6 }
  memory := ((({} : Memory).writeWord .lowest 0 48).writeWord .lowest 8 80).writeWord
    (.placed 48) 8 16
  objects := #[.lowest, .placed 48, .placed 80]
  weakHolders := #[.lowest, .placed 48, .placed 80]
  roots := { slots := #[.occupied (some .lowest)] }
  heapSize := 72

theorem Heap.consistent_threeHolders : threeHolders.Consistent where
  types_valid := TypeTable.valid_holders
  live_nodup := by decide
  unmarked := by decide
  sized := by decide +kernel
  heapSize := by decide
  finalizers_nodup := .nil
  finalizers_mem := nofun
  finalizers_pending := nofun
  weak_nodup := by decide
  weak_iff := by
    intro o
    have every : ∀ o ∈ threeHolders.live,
        (threeHolders.types.weakSlot? threeHolders.memory o).isSome := by decide +kernel
    exact ⟨fun member => ⟨member, every o member⟩, And.left⟩
  roots_live := by decide

theorem Heap.traceable_threeHolders : threeHolders.Traceable where
  scanners_live := nofun
  children_live := by decide +kernel

def Program.makeHolder : Program SystemMemory :=
  .call (.allocate (.external ⟨0⟩ 16)) fun _ => .done

def Heap.noHolder : Heap SystemMemory :=
  { growth := {}, types := .holders, host := {} }

def Heap.oneHolder : Heap SystemMemory :=
  noHolder.afterwards (allocateNow (.external ⟨0⟩ 16) 24)

theorem Program.runs_makeHolder : ∃ history,
    Runs Point.Lawful (.start { heap := .noHolder } makeHolder)
      ⟨{ heap := .oneHolder }, .code .outside (.run .done), history⟩ := by
  have accepted : (Request.external ⟨0⟩ 16).accept Heap.noHolder.types 0 = .ok 24 := rfl
  have granted : RawMemory.request 24 Heap.noHolder.host = (.ok .lowest, ⟨2⟩) := rfl
  have allocated : Heap.allocateNow (.external ⟨0⟩ 16) 24 Heap.noHolder =
      .ok (.ok .lowest) .oneHolder := rfl
  have fits : Code.Lawful Heap.noHolder (.allocate (.external ⟨0⟩ 16) 24 fun _ => .done) := by
    intro object host answer
    rw [granted] at answer
    cases answer
    exact ⟨by decide, nofun⟩
  have start : Runs Point.Lawful (.start { heap := Heap.noHolder } makeHolder)
      (.start { heap := .noHolder } makeHolder) := .refl
  have admitted := start.code nofun (.accept accepted (by decide) _)
  exact ⟨_, admitted.code fits (.allocate allocated _)⟩

theorem weak_references_holders :
    (∃ cycle after, Heap.reclaim .threeHolders = .ok cycle after ∧
      Collector.collect ⟨.threeHolders, #[]⟩ = Collector.conclude cycle ⟨after, #[]⟩ ∧
        Heap.threeHolders.WeakExact after) ∧
    Heap.oneHolder.live = [.lowest] ∧ Heap.oneHolder.weakHolders.toList.Nodup ∧
    ∀ o, o ∈ Heap.oneHolder.weakHolders.toList ↔ o ∈ Heap.oneHolder.live ∧
      ∃ descriptor slot, descriptor.weakOffset = some slot ∧
        Heap.oneHolder.types.get? (Heap.oneHolder.memory.header o).typeId = some descriptor := by
  obtain ⟨history, run⟩ := Program.runs_makeHolder
  have swept := (weak_references_exact (σ := SystemMemory)).1 .threeHolders #[]
    Heap.consistent_threeHolders Heap.traceable_threeHolders rfl
  have listed := (weak_references_exact (σ := SystemMemory)).2 .holders {} {} .makeHolder _
    TypeTable.valid_holders run
  exact ⟨swept, by decide +kernel, listed⟩

end Reclaim
