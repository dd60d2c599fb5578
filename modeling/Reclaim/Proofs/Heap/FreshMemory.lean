import Reclaim.Proofs.Heap.Accounts
import Reclaim.Proofs.Heap.Slots

namespace Reclaim

namespace RawMemory

variable {μ : Type} [RawMemory μ]

/-- What a raw memory can have come to, and the blocks that are held of it then. Blocks are released
    once and at the size that they were requested at. -/
inductive Came (first : μ) : μ → List (Ref × Word) → Prop
  | start : Came first first []
  | granted {memory after : μ} {held : List (Ref × Word)} {size : Word} {object : Ref}
      (came : Came first memory held) (answer : request size memory = (.ok object, after)) :
      Came first after (held ++ [(object, size)])
  | refused {memory after : μ} {held : List (Ref × Word)} {size : Word} {error : ChunkError}
      (came : Came first memory held) (answer : request size memory = (.error error, after)) :
      Came first after held
  | released {memory : μ} {held : List (Ref × Word)} {block : Ref × Word}
      (came : Came first memory held) (member : block ∈ held) :
      Came first (release block.1 block.2 memory) (held.erase block)

/-- Whatever is asked of the memory and given back to it, it grants fresh blocks or none. -/
def Fresh (first : μ) : Prop :=
  ∀ memory held, Came first memory held → ∀ size object after,
    request size memory = (.ok object, after) → Ledger.Fits { held } (object, size)

def releaseBlocks (blocks : List (Ref × Word)) (memory : μ) : μ :=
  blocks.foldl (fun memory block => release block.1 block.2 memory) memory

theorem Came.releaseBlocks {first memory : μ} {held : List (Ref × Word)}
    (came : Came first memory held) (once : held.Nodup) {blocks : List (Ref × Word)}
    (nodup : blocks.Nodup) (sub : ∀ block ∈ blocks, block ∈ held) :
    Came first (releaseBlocks blocks memory) (held.filter (· ∉ blocks)) := by
  induction blocks generalizing memory held with
  | nil => simpa [RawMemory.releaseBlocks] using came
  | cons block rest ih =>
    obtain ⟨other, nodup⟩ := List.nodup_cons.mp nodup
    have left := ih (came.released (sub block List.mem_cons_self)) (once.erase block) nodup (by
      intro kept member
      have different : kept ≠ block := fun same => other (same ▸ member)
      exact (List.mem_erase_of_ne different).mpr (sub kept (List.mem_cons_of_mem _ member)))
    rwa [Ledger.filter_erase once] at left

end RawMemory

namespace SystemMemory

variable {size : Word} {memory after : SystemMemory} {object : Ref}

theorem request_eq_ok (answer : RawMemory.request size memory = (.ok object, after)) :
    object.word.toNat = 16 * (memory.used + 1) ∧ memory.used ≤ after.used ∧
      object.word.toNat + size.toNat ≤ 16 * (after.used + 1) ∧
      16 * (after.used + 1) ≤ UInt64.size := by
  simp only [RawMemory.request, allocate] at answer
  cases checked : Chunk.check size with
  | error error => simp [checked] at answer
  | ok _ =>
    have positive : size.toNat ≠ 0 := by
      intro zero
      have none : size = 0 := UInt64.toNat_inj.mp zero
      simp [Chunk.check, none] at checked
    simp only [checked] at answer
    by_cases room : 16 * (memory.used + (size.toNat + 15) / 16 + 1) ≤ UInt64.size
    · rw [if_pos room] at answer
      cases found : Ref.ofWord? (UInt64.ofNat (16 * (memory.used + 1))) with
      | none =>
        simp only [found] at answer
        cases answer
      | some base =>
        simp only [found, Prod.mk.injEq, Except.ok.injEq] at answer
        obtain ⟨rfl, rfl⟩ := answer
        have small : 16 * (memory.used + 1) < UInt64.size := by omega
        have word : base.word.toNat = 16 * (memory.used + 1) := by
          rw [← Ref.eq_of_ofWord?_eq_some found, UInt64.toNat_ofNat_of_lt' small]
        exact ⟨word, by simp, by simp only [word]; omega, room⟩
    · simp [if_neg room] at answer

theorem request_eq_error {error : ChunkError}
    (answer : RawMemory.request size memory = (.error error, after)) : after = memory := by
  simp only [RawMemory.request] at answer
  cases allocated : memory.allocate size with
  | mk granted next =>
    rw [allocated] at answer
    cases granted with
    | ok chunk => cases answer
    | error found =>
      cases answer
      simp only [allocate] at allocated
      split at allocated
      · cases allocated
        rfl
      · split at allocated
        · split at allocated
          · cases allocated
          · cases allocated
            rfl
        · cases allocated
          rfl

theorem bounded_of_came {first memory : SystemMemory} {held : List (Ref × Word)}
    (came : RawMemory.Came first memory held) :
    ∀ block ∈ held, block.1.word.toNat + block.2.toNat ≤ 16 * (memory.used + 1) := by
  induction came with
  | start => exact fun _ member => nomatch member
  | granted _ answer ih =>
    obtain ⟨_, more, inside, _⟩ := request_eq_ok answer
    intro block member
    rcases List.mem_append.mp member with old | new
    · have bound := ih block old
      omega
    · rw [List.mem_singleton.mp new]
      exact inside
  | refused _ answer ih =>
    rw [request_eq_error answer]
    exact ih
  | released _ _ ih => exact fun block member => ih block (List.mem_of_mem_erase member)

theorem fresh (first : SystemMemory) : RawMemory.Fresh first := by
  intro memory held came size object after answer
  obtain ⟨base, _, inside, room⟩ := request_eq_ok answer
  refine ⟨Nat.le_trans inside room, fun other member => ?_⟩
  have bound := bounded_of_came came other member
  left
  rw [base]
  exact bound

end SystemMemory

end Reclaim
