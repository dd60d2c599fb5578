import Mathlib.Algebra.GroupWithZero.Nat
import Mathlib.Order.Bounds.Basic
import Reclaim.Proofs.Object.Types

namespace Reclaim

namespace Word

theorem alignUp?_eq_none {n : Word} : alignUp? n = none ↔ 2 ^ 64 - 8 < n.toNat := by
  have seven : (7 : Word).toNat = 7 := rfl
  rw [alignUp?, Option.map_eq_none_iff, add?_eq_none, seven]
  simp only [UInt64.size]
  omega

theorem isLeast_of_alignUp? {n c : Word} (aligned : alignUp? n = some c) :
    IsLeast {m | 8 ∣ m ∧ n.toNat ≤ m} c.toNat := by
  obtain ⟨lower, near, whole⟩ := alignUp?_eq_some aligned
  refine ⟨⟨Nat.dvd_of_mod_eq_zero whole, lower⟩, ?_⟩
  rintro m ⟨⟨k, rfl⟩, above⟩
  omega

theorem alignUp?_iff_isLeast {n c : Word} :
    alignUp? n = some c ↔ IsLeast {m | 8 ∣ m ∧ n.toNat ≤ m} c.toNat := by
  refine ⟨isLeast_of_alignUp?, fun least => ?_⟩
  cases aligned : alignUp? n with
  | none =>
    -- past the last multiple of eight there is none that is a word
    rw [alignUp?_eq_none] at aligned
    obtain ⟨⟨k, whole⟩, above⟩ := least.1
    have bound := c.toNat_lt
    omega
  | some found =>
    rw [Option.some.injEq, ← UInt64.toNat_inj]
    exact (isLeast_of_alignUp? aligned).unique least

end Word

theorem allocationCost?_eq_none {size : Word} :
    allocationCost? size = none ↔ 2 ^ 64 - 8 < 8 + size.toNat := by
  have header : headerSize.toNat = 8 := rfl
  rw [allocationCost?, Option.bind_eq_bind]
  cases sum : Word.add? headerSize size with
  | none =>
    rw [Word.add?_eq_none, header] at sum
    simp only [UInt64.size] at sum
    exact iff_of_true rfl (by omega)
  | some total =>
    rw [Word.add?_eq_some, header] at sum
    rw [Option.bind_some, Word.alignUp?_eq_none, sum]

theorem allocationCost?_iff_isLeast {size cost : Word} :
    allocationCost? size = some cost ↔ IsLeast {n | 8 ∣ n ∧ 8 + size.toNat ≤ n} cost.toNat := by
  have header : headerSize.toNat = 8 := rfl
  rw [allocationCost?, Option.bind_eq_bind]
  cases sum : Word.add? headerSize size with
  | none =>
    rw [Word.add?_eq_none, header] at sum
    have bound := cost.toNat_lt
    simp only [UInt64.size] at sum
    refine iff_of_false (Option.some_ne_none cost).symm fun least => ?_
    have above := least.1.2
    omega
  | some total =>
    rw [Word.add?_eq_some, header] at sum
    rw [Option.bind_some, Word.alignUp?_iff_isLeast, sum]

namespace Layout

def payloadBytes (layout : Layout) (length : Word) : Nat :=
  match layout with
  | fixed size => size.toNat
  | varsize base item _ => base.toNat + item.toNat * length.toNat

variable {layout : Layout} {length size : Word}

theorem payloadSize?_eq_some :
    layout.payloadSize? length = some size ↔ size.toNat = layout.payloadBytes length := by
  cases layout with
  | fixed fixedSize =>
    rw [payloadSize?, payloadBytes, Option.some.injEq, UInt64.toNat_inj, eq_comm]
  | varsize base item lengthOffset =>
    rw [payloadSize?, payloadBytes, Option.bind_eq_bind]
    cases product : Word.mul? item length with
    | none =>
      rw [Word.mul?_eq_none] at product
      have bound := size.toNat_lt
      simp only [UInt64.size] at product
      exact iff_of_false (Option.some_ne_none size).symm (by omega)
    | some items =>
      rw [Word.mul?_eq_some] at product
      rw [Option.bind_some, Word.add?_eq_some, product, Nat.add_comm, eq_comm]

theorem payloadSize?_eq_none :
    layout.payloadSize? length = none ↔ 2 ^ 64 ≤ layout.payloadBytes length := by
  rw [← Option.not_isSome_iff_eq_none, Option.isSome_iff_exists]
  constructor
  · intro absent
    refine Nat.le_of_not_lt fun small => absent ?_
    refine ⟨UInt64.ofNat (layout.payloadBytes length), payloadSize?_eq_some.mpr ?_⟩
    exact UInt64.toNat_ofNat_of_lt small
  · rintro large ⟨size, known⟩
    have bound := size.toNat_lt
    rw [payloadSize?_eq_some.mp known] at bound
    omega

theorem cost_eq_none : (layout.payloadSize? length >>= allocationCost?) = none ↔
    2 ^ 64 - 8 < 8 + layout.payloadBytes length := by
  rw [Option.bind_eq_bind]
  cases known : layout.payloadSize? length with
  | none =>
    rw [payloadSize?_eq_none] at known
    exact iff_of_true rfl (by omega)
  | some size =>
    rw [Option.bind_some, allocationCost?_eq_none, payloadSize?_eq_some.mp known]

theorem cost_iff_isLeast {cost : Word} :
    (layout.payloadSize? length >>= allocationCost?) = some cost ↔
      IsLeast {n | 8 ∣ n ∧ 8 + layout.payloadBytes length ≤ n} cost.toNat := by
  rw [Option.bind_eq_bind]
  cases known : layout.payloadSize? length with
  | none =>
    rw [payloadSize?_eq_none] at known
    have bound := cost.toNat_lt
    refine iff_of_false (Option.some_ne_none cost).symm fun least => ?_
    have above := least.1.2
    omega
  | some size =>
    rw [Option.bind_some, allocationCost?_iff_isLeast, payloadSize?_eq_some.mp known]

end Layout

end Reclaim
