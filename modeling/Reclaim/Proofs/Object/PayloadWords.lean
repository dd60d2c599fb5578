import Reclaim.Object.Payload

namespace Reclaim

namespace Word

theorem shift_or_byte (w : Word) : ((w >>> 8) <<< 8) ||| w.toUInt8.toUInt64 = w := by
  apply UInt64.eq_of_toBitVec_eq
  ext i hi
  by_cases h : i < 8
  · simp [-UInt64.toUInt64_toUInt8, h, hi]
  · simp [-UInt64.toUInt64_toUInt8, h]
    rw [show 8 + (i - 8) = i by omega]
    simp [hi]

theorem shift_shift (w : Word) (k : Nat) (h : k < 7) :
    (w >>> (8 * UInt64.ofNat k)) >>> 8 = w >>> (8 * UInt64.ofNat (k + 1)) := by
  apply UInt64.eq_of_toBitVec_eq
  have cases : k = 0 ∨ k = 1 ∨ k = 2 ∨ k = 3 ∨ k = 4 ∨ k = 5 ∨ k = 6 := by omega
  ext i hi
  rcases cases with rfl | rfl | rfl | rfl | rfl | rfl | rfl <;>
    simp

theorem ofBytes_toBytes (w : Word) : ofBytes w.toBytes = w := by
  have step (k : Nat) (h : k < 7) :
      ((w >>> (8 * UInt64.ofNat (k + 1))) <<< 8) ||| (w >>> (8 * UInt64.ofNat k)).toUInt8.toUInt64 =
        w >>> (8 * UInt64.ofNat k) := by
    rw [← shift_shift w k h, shift_or_byte]
  have last : ((0 : Word) <<< 8) ||| (w >>> (8 * UInt64.ofNat 7)).toUInt8.toUInt64 =
      w >>> (8 * UInt64.ofNat 7) := by
    apply UInt64.eq_of_toBitVec_eq
    ext i hi
    by_cases h : i < 8
    · simp [-UInt64.toUInt64_toUInt8, h]
    · simp [-UInt64.toUInt64_toUInt8, h]
      exact BitVec.getLsbD_of_ge _ _ (by omega)
  have first : w >>> (8 * UInt64.ofNat 0) = w := by
    apply UInt64.eq_of_toBitVec_eq
    simp
  simp only [toBytes, ofBytes, List.range, List.range.loop, List.map_cons, List.map_nil,
    List.foldr_cons, List.foldr_nil]
  rw [last, step 6 (by decide), step 5 (by decide), step 4 (by decide), step 3 (by decide),
    step 2 (by decide), step 1 (by decide), step 0 (by decide), first]

end Word

namespace Payload

def Apart (a b : Nat) : Prop :=
  a + 8 ≤ b ∨ b + 8 ≤ a

theorem Apart.symm {a b : Nat} (h : Apart a b) : Apart b a :=
  Or.symm h

theorem byte_write_of_outside (payload : Payload) (bytes : List UInt8) {i j : Nat}
    (outside : j < i ∨ i + bytes.length ≤ j) :
    (payload.write i bytes).byte j = payload.byte j := by
  rw [byte_write]
  split
  · rw [List.getElem?_eq_none (by omega)]
    rfl
  · rfl

theorem byte_write_of_inside (payload : Payload) (bytes : List UInt8) {i k : Nat}
    (inside : k < bytes.length) :
    (payload.write i bytes).byte (i + k) = bytes[k] := by
  rw [byte_write, if_pos (by omega), show i + k - i = k by omega,
    List.getElem?_eq_getElem inside]
  rfl

theorem byte_writeWord_zero (payload : Payload) {i j : Nat} (first : i ≤ j) (last : j < i + 8) :
    (payload.writeWord i 0).byte j = 0 := by
  obtain ⟨k, rfl⟩ := Nat.exists_eq_add_of_le first
  have inside : k < (Word.toBytes 0).length := by
    rw [Word.length_toBytes]
    omega
  rw [writeWord, byte_write_of_inside _ _ inside]
  have zeros : Word.toBytes 0 = List.replicate 8 0 := rfl
  simp only [zeros, List.getElem_replicate]

theorem readWord_congr {payload other : Payload} {offset : Nat}
    (same : ∀ i < 8, other.byte (offset + i) = payload.byte (offset + i)) :
    other.readWord offset = payload.readWord offset := by
  rw [readWord, readWord, read, read]
  congr 1
  apply List.map_congr_left
  intro i member
  exact same i (List.mem_range.mp member)

theorem readWord_write_of_outside (payload : Payload) (bytes : List UInt8) {i j : Nat}
    (outside : j + 8 ≤ i ∨ i + bytes.length ≤ j) :
    (payload.write i bytes).readWord j = payload.readWord j := by
  apply readWord_congr
  intro k inside
  apply byte_write_of_outside
  omega

theorem readWord_writeWord_of_apart (payload : Payload) (word : Word) {i j : Nat}
    (apart : Apart i j) : (payload.writeWord i word).readWord j = payload.readWord j := by
  apply readWord_write_of_outside
  rw [Word.length_toBytes]
  exact apart.symm

@[simp] theorem readWord_writeWord_self (payload : Payload) (offset : Nat) (word : Word) :
    (payload.writeWord offset word).readWord offset = word := by
  have bytes : (payload.writeWord offset word).read offset 8 = word.toBytes := by
    apply List.ext_getElem
    · simp [read]
    · intro i hi hb
      rw [Word.length_toBytes] at hb
      simp only [read, List.getElem_map, List.getElem_range]
      exact byte_write_of_inside payload word.toBytes hb
  rw [readWord, bytes, Word.ofBytes_toBytes]

@[simp] theorem readWord_zero (offset : Nat) : zero.readWord offset = 0 := by
  have bytes : zero.read offset 8 = List.replicate 8 0 := by
    simp [read, List.range, List.range.loop, List.replicate]
  rw [readWord, bytes]
  rfl

end Payload

end Reclaim
