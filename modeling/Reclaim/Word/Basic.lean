namespace Reclaim

abbrev Word := UInt64

namespace Word

/-- The number of bytes in a word, and the alignment of every object size. -/
def size : Word := 8

def add? (a b : Word) : Option Word :=
  if a.toNat + b.toNat < UInt64.size then some (a + b) else none

def mul? (a b : Word) : Option Word :=
  if a.toNat * b.toNat < UInt64.size then some (a * b) else none

def sub? (a b : Word) : Option Word :=
  if b.toNat ≤ a.toNat then some (a - b) else none

/-- The least multiple of a word's size that is at least `n`, if it can be found without leaving
    the range of a word. -/
def alignUp? (n : Word) : Option Word :=
  (add? n 7).map fun s => s &&& ~~~7

theorem add?_eq_some {a b c : Word} : add? a b = some c ↔ a.toNat + b.toNat = c.toNat := by
  simp only [add?, UInt64.size]
  have hc := c.toNat_lt
  split
  · rename_i fits
    rw [Option.some.injEq, ← UInt64.toNat_inj, UInt64.toNat_add, Nat.mod_eq_of_lt fits]
  · constructor
    · intro h; cases h
    · intro h; omega

theorem mul?_eq_some {a b c : Word} : mul? a b = some c ↔ a.toNat * b.toNat = c.toNat := by
  simp only [mul?, UInt64.size]
  have hc := c.toNat_lt
  split
  · rename_i fits
    rw [Option.some.injEq, ← UInt64.toNat_inj, UInt64.toNat_mul, Nat.mod_eq_of_lt fits]
  · constructor
    · intro h; cases h
    · intro h; omega

theorem sub?_eq_some {a b c : Word} : sub? a b = some c ↔ a.toNat = b.toNat + c.toNat := by
  unfold sub?
  split
  · rename_i fits
    rw [Option.some.injEq, ← UInt64.toNat_inj, UInt64.toNat_sub_of_le _ _ fits]
    omega
  · constructor
    · intro h; cases h
    · intro h; omega

theorem add?_eq_none {a b : Word} : add? a b = none ↔ UInt64.size ≤ a.toNat + b.toNat := by
  unfold add?
  split <;> simp <;> omega

theorem mul?_eq_none {a b : Word} : mul? a b = none ↔ UInt64.size ≤ a.toNat * b.toNat := by
  unfold mul?
  split <;> simp <;> omega

theorem sub?_eq_none {a b : Word} : sub? a b = none ↔ a.toNat < b.toNat := by
  unfold sub?
  split <;> simp <;> omega

end Word

end Reclaim
