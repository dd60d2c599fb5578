import Mathlib.Algebra.GroupWithZero.Nat
import Mathlib.Data.Set.Function
import Reclaim.Proofs.Object.HeaderBits

namespace Reclaim

def Word.Puts (before after : Word) (place : Nat) (value : Bool) : Prop :=
  ∀ i < 64, after.toBitVec.getLsbD i = if i = place then value else before.toBitVec.getLsbD i

namespace Flags

theorem named_eq_single (i : Fin named.length) : named[i].1 = single i := by
  revert i
  decide

theorem toNat_difference_le (flags other : Flags) :
    (flags.difference other).bits.toNat ≤ flags.bits.toNat := by
  rw [difference, UInt64.toNat_and]
  exact Nat.and_le_left

theorem contains_difference_surviving (flags : Flags) :
    (flags.difference surviving).contains surviving = false := by
  rw [contains_surviving]
  simp [difference, surviving]

end Flags

namespace Header

theorem toNat_bits_decode_encode (header : Header) :
    (decode header.encode).flags.bits.toNat = header.flags.bits.toNat % 2 ^ 48 := by
  rw [bits_decode_encode, UInt64.toNat_and]
  exact Nat.and_two_pow_sub_one_eq_mod _ 48

theorem toNat_bits_decode_lt (word : Word) : (decode word).flags.bits.toNat < 2 ^ 48 := by
  have bits := toNat_bits_decode_encode (decode word)
  rw [encode_decode] at bits
  rw [bits]
  exact Nat.mod_lt _ (by decide)

theorem decode_encode_iff (header : Header) :
    decode header.encode = header ↔ header.flags.bits.toNat < 2 ^ 48 := by
  constructor
  · intro same
    rw [← same]
    exact toNat_bits_decode_lt _
  · intro fits
    have bits : (decode header.encode).flags.bits = header.flags.bits := by
      rw [← UInt64.toNat_inj, toNat_bits_decode_encode, Nat.mod_eq_of_lt fits]
    exact congrArg₂ mk (typeId_decode_encode header) (congrArg Flags.mk bits)

theorem puts_union (word : Word) {i : Nat} (hi : i < 48) :
    word.Puts ((decode word).withFlags ((decode word).flags.union (.single i))).encode (16 + i)
      true := by
  intro k hk
  rw [encode_union, UInt64.toBitVec_or, BitVec.getLsbD_or, Flags.getLsbD_mask hi hk]
  split <;> simp_all

theorem puts_difference (word : Word) {i : Nat} (hi : i < 48) :
    word.Puts ((decode word).withFlags ((decode word).flags.difference (.single i))).encode (16 + i)
      false := by
  intro k hk
  rw [encode_difference, UInt64.toBitVec_and, UInt64.toBitVec_not, BitVec.getLsbD_and,
    BitVec.getLsbD_not, Flags.getLsbD_mask hi hk]
  split <;> simp_all

theorem decode_and_not_mask (word : Word) (flag : Flags) :
    decode (word &&& ~~~flag.mask) =
      (decode word).withFlags ((decode word).flags.difference flag) := by
  rw [← encode_difference, decode_encode_iff]
  exact (Flags.toNat_difference_le _ _).trans_lt (toNat_bits_decode_lt word)

end Header

structure Memory.PutsFlag (before after : Memory) (object : Ref) (place : Nat) (value : Bool) :
    Prop where
  word : (before.headerWord object).Puts (after.headerWord object) place value
  typeId : (after.header object).typeId = (before.header object).typeId
  others : ∀ o, o ≠ object → after.headerWord o = before.headerWord o
  payload : ∀ o, after.payload o = before.payload o

namespace Memory

variable (memory : Memory) (object : Ref) {i : Nat}

theorem putsFlag_addFlag (hi : i < 48) :
    memory.PutsFlag (memory.addFlag object (.single i)) object (16 + i) true where
  word := by
    rw [headerWord_addFlag, if_pos rfl, ← Header.encode_union]
    exact Header.puts_union _ hi
  typeId := typeId_addFlag ..
  others := by
    intro o different
    rw [headerWord_addFlag, if_neg different.symm]
  payload _ := payload_addFlag ..

theorem putsFlag_removeFlag (hi : i < 48) :
    memory.PutsFlag (memory.removeFlag object (.single i)) object (16 + i) false where
  word := by
    rw [headerWord_removeFlag, if_pos rfl, ← Header.encode_difference]
    exact Header.puts_difference _ hi
  typeId := typeId_removeFlag ..
  others := by
    intro o different
    rw [headerWord_removeFlag, if_neg different.symm]
  payload _ := payload_removeFlag ..

end Memory

/-- No bit of a word is lost when it is decoded. Of a header, the type id and the low 48 bits of the
    flags are kept, so exactly those headers come back whose flags have no more, and no two of them
    have the same word. A named flag that is set or cleared in an object's header changes that one
    bit of the word. -/
theorem Header.codec_exact :
    (∀ word, (decode word).encode = word) ∧
    (∀ header : Header, (decode header.encode).typeId = header.typeId ∧
      (decode header.encode).flags.bits.toNat = header.flags.bits.toNat % 2 ^ 48) ∧
    (∀ header : Header, decode header.encode = header ↔ header.flags.bits.toNat < 2 ^ 48) ∧
    Set.InjOn encode {header : Header | header.flags.bits.toNat < 2 ^ 48} ∧
    ∀ (memory : Memory) (object : Ref) (i : Fin Flags.named.length),
      memory.PutsFlag (memory.addFlag object Flags.named[i].1) object (16 + i) true ∧
      memory.PutsFlag (memory.removeFlag object Flags.named[i].1) object (16 + i) false := by
  refine ⟨encode_decode, ?_, decode_encode_iff, ?_, ?_⟩
  · intro header
    exact ⟨typeId_decode_encode header, toNat_bits_decode_encode header⟩
  · have inverse : Set.LeftInvOn decode encode {header | header.flags.bits.toNat < 2 ^ 48} :=
      fun header fits => (decode_encode_iff header).mpr fits
    exact inverse.injOn
  · intro memory object i
    have small : (i : Nat) < 48 := i.isLt.trans (by decide)
    rw [Flags.named_eq_single]
    exact ⟨memory.putsFlag_addFlag object small, memory.putsFlag_removeFlag object small⟩

end Reclaim
