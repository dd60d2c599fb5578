import Mathlib.Data.Nat.Digits.Lemmas
import Reclaim.Proofs.Object.PayloadWords

namespace Reclaim

abbrev Bytes := Nat → UInt8

namespace Bytes

def overwrite (bytes : Bytes) (start : Nat) (run : List UInt8) : Bytes := fun place =>
  if start ≤ place then run[place - start]?.getD (bytes place) else bytes place

def number (bytes : Bytes) (place : Nat) : Nat :=
  Nat.ofDigits 256 ((List.range 8).map fun k => (bytes (place + k)).toNat)

variable {bytes other : Bytes} {start place : Nat} {run : List UInt8}

theorem overwrite_of_outside (outside : place < start ∨ start + run.length ≤ place) :
    bytes.overwrite start run place = bytes place := by
  rw [overwrite]
  split
  · rw [List.getElem?_eq_none (by omega)]
    rfl
  · rfl

theorem overwrite_window {base : Nat} (same : bytes (base + place) = other place) :
    bytes.overwrite (base + start) run (base + place) = other.overwrite start run place := by
  rw [overwrite, overwrite, same]
  simp only [Nat.add_le_add_iff_left, Nat.add_sub_add_left]

theorem number_congr {place' : Nat} (same : ∀ k < 8, bytes (place + k) = other (place' + k)) :
    bytes.number place = other.number place' := by
  rw [number, number]
  congr 1
  apply List.map_congr_left
  intro k member
  rw [same k (List.mem_range.mp member)]

end Bytes

namespace Word

theorem toNat_shift_or (rest : Word) (byte : UInt8) (small : rest.toNat < 2 ^ 56) :
    ((rest <<< 8) ||| byte.toUInt64).toNat = byte.toNat + 256 * rest.toNat := by
  have shifted : (rest <<< 8).toNat = rest.toNat <<< 8 := by
    rw [UInt64.toNat_shiftLeft]
    refine Nat.mod_eq_of_lt ?_
    rw [show (8 : Word).toNat % 64 = 8 from rfl, Nat.shiftLeft_eq]
    omega
  rw [UInt64.toNat_or, shifted, UInt8.toNat_toUInt64, ← Nat.shiftLeft_add_eq_or_of_lt byte.toNat_lt,
    Nat.shiftLeft_eq]
  omega

theorem toNat_ofBytes {bytes : List UInt8} (short : bytes.length ≤ 8) :
    (ofBytes bytes).toNat = Nat.ofDigits 256 (bytes.map UInt8.toNat) := by
  induction bytes with
  | nil => rfl
  | cons byte rest ih =>
    rw [List.length_cons] at short
    have value := ih (by omega)
    have small : (ofBytes rest).toNat < 2 ^ 56 := by
      rw [value]
      have digits : ∀ digit ∈ rest.map UInt8.toNat, digit < 256 := by
        intro digit member
        obtain ⟨byte, _, rfl⟩ := List.mem_map.mp member
        exact byte.toNat_lt
      have bound := Nat.ofDigits_lt_base_pow_length (by decide) digits
      rw [List.length_map] at bound
      exact bound.trans_le ((Nat.pow_le_pow_right (by decide) (by omega)).trans_eq
        (show 256 ^ 7 = 2 ^ 56 from rfl))
    rw [List.map_cons, Nat.ofDigits_cons, ← value]
    exact toNat_shift_or _ _ small

theorem ofDigits_toBytes (w : Word) : Nat.ofDigits 256 (w.toBytes.map UInt8.toNat) = w.toNat := by
  rw [← toNat_ofBytes (Nat.le_of_eq w.length_toBytes), ofBytes_toBytes]

end Word

theorem Bytes.number_of_toBytes {bytes : Bytes} {place : Nat} {w : Word}
    (same : ∀ k (inside : k < w.toBytes.length), bytes (place + k) = w.toBytes[k]) :
    bytes.number place = w.toNat := by
  rw [number, ← w.ofDigits_toBytes]
  congr 1
  apply List.ext_getElem
  · simp
  · intro k first second
    rw [List.length_map] at second
    simp only [List.getElem_map, List.getElem_range, same k second]

namespace Payload

theorem toNat_readWord (payload : Payload) (offset : Nat) :
    (payload.readWord offset).toNat = Bytes.number payload.byte offset := by
  rw [readWord, Word.toNat_ofBytes (by simp [read]), read, List.map_map]
  rfl

theorem byte_write_eq_overwrite (payload : Payload) (start : Nat) (run : List UInt8) :
    (payload.write start run).byte = Bytes.overwrite payload.byte start run := by
  funext place
  exact byte_write ..

end Payload

end Reclaim
