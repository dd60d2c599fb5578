import Reclaim.Object.Memory

namespace Reclaim

namespace Flags

def single (i : Nat) : Flags :=
  ⟨⟨BitVec.twoPow 64 i⟩⟩

def mask (flag : Flags) : Word :=
  flag.bits <<< 16

theorem surviving_eq_single : surviving = single 0 := rfl

theorem external_eq_single : external = single 1 := by decide

theorem finalizerReachable_eq_single : finalizerReachable = single 2 := by decide

theorem contains_single (flags : Flags) {i : Nat} (h : i < 64) :
    flags.contains (single i) = flags.bits.toBitVec.getLsbD i := by
  obtain ⟨bits⟩ := flags
  simp only [contains, single]
  rw [Bool.eq_iff_iff, beq_iff_eq, ← UInt64.toBitVec_inj]
  constructor
  · intro same
    have bit := congrArg (fun v => v.getLsbD i) same
    simpa [h] using bit
  · intro set
    apply BitVec.eq_of_getLsbD_eq
    intro j hj
    by_cases same : i = j
    · subst same
      simpa [h] using set
    · simp [same]

theorem getLsbD_mask_single (i : Nat) {j : Nat} (hj : j < 48) :
    (single i).mask.toBitVec.getLsbD (16 + j) = decide (i = j) := by
  have inside : 16 + j < 64 := by omega
  have order : (j = i) = (i = j) := propext eq_comm
  simp [single, mask, inside, order]

theorem getLsbD_mask {i : Nat} (hi : i < 48) {k : Nat} (hk : k < 64) :
    (single i).mask.toBitVec.getLsbD k = decide (k = 16 + i) := by
  by_cases low : k < 16
  · simp [mask, low]
    omega
  · obtain ⟨j, rfl⟩ := Nat.exists_eq_add_of_le (Nat.not_lt.mp low)
    rw [getLsbD_mask_single i (by omega)]
    simp [eq_comm]

end Flags

namespace Header

theorem encode_union (word : Word) (flag : Flags) :
    ((decode word).withFlags ((decode word).flags.union flag)).encode = word ||| flag.mask := by
  simp only [decode, encode, withFlags, Flags.union, Flags.mask]
  apply UInt64.eq_of_toBitVec_eq
  ext i hi
  by_cases h : i < 16
  · simp [-UInt64.toUInt64_toUInt16, h, hi]
  · simp [-UInt64.toUInt64_toUInt16, h]
    rw [show 16 + (i - 16) = i by omega]
    simp [hi]

theorem encode_difference (word : Word) (flag : Flags) :
    ((decode word).withFlags ((decode word).flags.difference flag)).encode =
      word &&& ~~~flag.mask := by
  simp only [decode, encode, withFlags, Flags.difference, Flags.mask]
  apply UInt64.eq_of_toBitVec_eq
  ext i hi
  by_cases h : i < 16
  · simp [-UInt64.toUInt64_toUInt16, h, hi]
  · simp [-UInt64.toUInt64_toUInt16, h]
    rw [show 16 + (i - 16) = i by omega]
    simp [hi]

theorem typeId_or_mask (word : Word) (flag : Flags) :
    (decode (word ||| flag.mask)).typeId = (decode word).typeId := by
  rw [← encode_union, typeId_decode_encode]
  rfl

theorem typeId_and_not_mask (word : Word) (flag : Flags) :
    (decode (word &&& ~~~flag.mask)).typeId = (decode word).typeId := by
  rw [← encode_difference, typeId_decode_encode]
  rfl

theorem contains_single_decode (word : Word) {i : Nat} (h : i < 48) :
    (decode word).flags.contains (.single i) = word.toBitVec.getLsbD (16 + i) := by
  rw [Flags.contains_single _ (by omega)]
  simp [decode]

theorem contains_single_or_mask (word : Word) {i j : Nat} (hi : i < 48) :
    (decode (word ||| (Flags.single j).mask)).flags.contains (.single i) =
      (decide (j = i) || (decode word).flags.contains (.single i)) := by
  rw [contains_single_decode _ hi, contains_single_decode _ hi, UInt64.toBitVec_or,
    BitVec.getLsbD_or, Flags.getLsbD_mask_single _ hi, Bool.or_comm]

theorem or_mask_and_not_mask {word : Word} {i : Nat} (hi : i < 48)
    (clear : (decode word).flags.contains (.single i) = false) :
    (word ||| (Flags.single i).mask) &&& ~~~(Flags.single i).mask = word := by
  rw [contains_single_decode _ hi] at clear
  apply UInt64.eq_of_toBitVec_eq
  apply BitVec.eq_of_getLsbD_eq
  intro k hk
  simp only [UInt64.toBitVec_and, UInt64.toBitVec_or, UInt64.toBitVec_not, BitVec.getLsbD_and,
    BitVec.getLsbD_or, BitVec.getLsbD_not, Flags.getLsbD_mask hi hk]
  by_cases same : k = 16 + i
  · subst same
    simp [clear]
  · simp [same, hk]

end Header

namespace Memory

variable (memory : Memory) (a b : Ref)

theorem headerWord_setHeaderWord (word : Word) :
    (memory.setHeaderWord a word).headerWord b = if a = b then word else memory.headerWord b := by
  by_cases same : a = b
  · subst same
    simp [headerWord, setHeaderWord]
  · simp [headerWord, setHeaderWord, block_setBlock_of_ne, same]

theorem payload_setHeaderWord (word : Word) :
    (memory.setHeaderWord a word).payload b = memory.payload b := by
  by_cases same : a = b
  · subst same
    simp [payload, setHeaderWord]
  · simp [payload, setHeaderWord, block_setBlock_of_ne, same]

theorem headerWord_setPayload (value : Payload) :
    (memory.setPayload a value).headerWord b = memory.headerWord b := by
  by_cases same : a = b
  · subst same
    simp [headerWord, setPayload]
  · simp [headerWord, setPayload, block_setBlock_of_ne, same]

theorem payload_setPayload (value : Payload) :
    (memory.setPayload a value).payload b = if a = b then value else memory.payload b := by
  by_cases same : a = b
  · subst same
    simp [payload, setPayload]
  · simp [payload, setPayload, block_setBlock_of_ne, same]

theorem headerWord_addFlag (flag : Flags) :
    (memory.addFlag a flag).headerWord b =
      if a = b then memory.headerWord b ||| flag.mask else memory.headerWord b := by
  rw [addFlag, setFlags, setHeader, headerWord_setHeaderWord, flags, header, Header.encode_union]
  split
  · rename_i same
    rw [same]
  · rfl

theorem headerWord_removeFlag (flag : Flags) :
    (memory.removeFlag a flag).headerWord b =
      if a = b then memory.headerWord b &&& ~~~flag.mask else memory.headerWord b := by
  rw [removeFlag, setFlags, setHeader, headerWord_setHeaderWord, flags, header,
    Header.encode_difference]
  split
  · rename_i same
    rw [same]
  · rfl

@[simp] theorem payload_addFlag (flag : Flags) :
    (memory.addFlag a flag).payload b = memory.payload b :=
  payload_setHeaderWord ..

@[simp] theorem payload_removeFlag (flag : Flags) :
    (memory.removeFlag a flag).payload b = memory.payload b :=
  payload_setHeaderWord ..

@[simp] theorem headerWord_writeWord (offset word : Word) :
    (memory.writeWord a offset word).headerWord b = memory.headerWord b :=
  headerWord_setPayload ..

theorem payload_writeWord (offset word : Word) :
    (memory.writeWord a offset word).payload b =
      if a = b then (memory.payload b).writeWord offset.toNat word else memory.payload b := by
  rw [writeWord, payload_setPayload]
  split
  · rename_i same
    rw [same]
  · rfl

@[simp] theorem headerWord_writeBytes (offset : Nat) (bytes : List UInt8) :
    (memory.writeBytes a offset bytes).headerWord b = memory.headerWord b :=
  headerWord_setPayload ..

theorem payload_writeBytes (offset : Nat) (bytes : List UInt8) :
    (memory.writeBytes a offset bytes).payload b =
      if a = b then (memory.payload b).write offset bytes else memory.payload b := by
  rw [writeBytes, payload_setPayload]
  split
  · rename_i same
    rw [same]
  · rfl

theorem headerWord_clear :
    (memory.clear a).headerWord b = if a = b then 0 else memory.headerWord b := by
  simp only [headerWord, clear, block_setBlock]
  split <;> rfl

theorem payload_clear :
    (memory.clear a).payload b = if a = b then .zero else memory.payload b := by
  simp only [payload, clear, block_setBlock]
  split <;> rfl

theorem header_congr {memory other : Memory} {object : Ref}
    (same : other.headerWord object = memory.headerWord object) :
    other.header object = memory.header object := by
  rw [header, header, same]

@[simp] theorem typeId_addFlag (flag : Flags) :
    ((memory.addFlag a flag).header b).typeId = (memory.header b).typeId := by
  rw [header, headerWord_addFlag]
  split
  · rw [Header.typeId_or_mask, header]
  · rfl

@[simp] theorem typeId_removeFlag (flag : Flags) :
    ((memory.removeFlag a flag).header b).typeId = (memory.header b).typeId := by
  rw [header, headerWord_removeFlag]
  split
  · rw [Header.typeId_and_not_mask, header]
  · rfl

theorem isSurviving_addFlag_surviving :
    (memory.addFlag a .surviving).isSurviving b = (decide (a = b) || memory.isSurviving b) := by
  rw [isSurviving, flags, header, headerWord_addFlag, Flags.surviving_eq_single]
  by_cases same : a = b
  · rw [if_pos same, Header.contains_single_or_mask _ (by decide)]
    simp [same]
  · simp [same, isSurviving, flags, header, Flags.surviving_eq_single]

theorem isSurviving_addFlag_finalizerReachable :
    (memory.addFlag a .finalizerReachable).isSurviving b = memory.isSurviving b := by
  rw [isSurviving, flags, header, headerWord_addFlag, Flags.surviving_eq_single,
    Flags.finalizerReachable_eq_single]
  split
  · rw [Header.contains_single_or_mask _ (by decide)]
    rfl
  · rfl

theorem flags_congr {memory other : Memory} {object : Ref}
    (same : other.headerWord object = memory.headerWord object) :
    other.flags object = memory.flags object := by
  rw [flags, flags, header_congr same]

theorem isSurviving_congr {memory other : Memory} {object : Ref}
    (same : other.headerWord object = memory.headerWord object) :
    other.isSurviving object = memory.isSurviving object := by
  rw [isSurviving, isSurviving, flags_congr same]

end Memory

end Reclaim
