import Reclaim.Handle

namespace Reclaim

/-- Collector flags. Bits without a name are kept as they are. -/
structure Flags where
  bits : Word
  deriving DecidableEq

namespace Flags

def empty : Flags := ⟨0⟩

/-- Reached during the current collection; set on no object between collections. -/
def surviving : Flags := ⟨1⟩

/-- Allocated outside the registry, and never freed by a collection. -/
def external : Flags := ⟨2⟩

/-- The object's finalizer has been scheduled and its entry consumed. -/
def finalizerReachable : Flags := ⟨4⟩

def contains (flags other : Flags) : Bool :=
  flags.bits &&& other.bits == other.bits

def union (flags other : Flags) : Flags :=
  ⟨flags.bits ||| other.bits⟩

def difference (flags other : Flags) : Flags :=
  ⟨flags.bits &&& ~~~other.bits⟩

def named : List (Flags × String) :=
  [(surviving, "SURVIVING"), (external, "EXTERNAL"), (finalizerReachable, "FINALIZER_REACHABLE")]

def unnamed (flags : Flags) : Flags :=
  named.foldl (fun rest entry => rest.difference entry.1) flags

def text (flags : Flags) : String :=
  let names := (named.filter fun entry => flags.contains entry.1).map Prod.snd
  let rest := flags.unnamed.bits
  let parts :=
    if rest = 0 ∧ ¬ names.isEmpty then names
    else names ++ ["0x" ++ String.ofList (Nat.toDigits 16 rest.toNat)]
  "GcFlags(" ++ " | ".intercalate parts ++ ")"

theorem contains_surviving (flags : Flags) :
    flags.contains surviving = flags.bits.toBitVec.getLsbD 0 := by
  obtain ⟨bits⟩ := flags
  simp only [contains, surviving]
  rw [Bool.eq_iff_iff, beq_iff_eq, ← UInt64.toBitVec_inj]
  constructor
  · intro h
    have := congrArg (fun v => v.getLsbD 0) h
    simpa using this
  · intro h
    apply BitVec.eq_of_getLsbD_eq
    intro i hi
    cases i with
    | zero => simpa using h
    | succ i => simp [BitVec.getLsbD_one]

end Flags

structure Header where
  typeId : TypeId
  flags : Flags
  deriving DecidableEq

namespace Header

/-- Flags above bit 47 do not fit in the word and are lost. -/
def encode (header : Header) : Word :=
  (header.flags.bits <<< 16) ||| header.typeId.index.toUInt64

def decode (word : Word) : Header :=
  ⟨⟨word.toUInt16⟩, ⟨word >>> 16⟩⟩

def withFlags (header : Header) (flags : Flags) : Header :=
  { header with flags }

theorem typeId_decode_encode (header : Header) : (decode header.encode).typeId = header.typeId := by
  obtain ⟨⟨index⟩, ⟨bits⟩⟩ := header
  simp only [decode, encode, TypeId.mk.injEq]
  apply UInt16.eq_of_toBitVec_eq
  ext i hi
  simp

theorem bits_decode_encode (header : Header) :
    (decode header.encode).flags.bits = header.flags.bits &&& 0xffffffffffff := by
  obtain ⟨⟨index⟩, ⟨bits⟩⟩ := header
  have mask : ∀ i, (hi : i < 64) → (281474976710655#64)[i] = decide (i < 48) := by decide
  simp only [decode, encode]
  apply UInt64.eq_of_toBitVec_eq
  ext i hi
  by_cases h : 16 + i < 64
  · simp [mask, h, show i < 48 by omega]
  · simp [mask, hi, h, show ¬ i < 48 by omega]

theorem encode_decode (word : Word) : (decode word).encode = word := by
  simp only [decode, encode]
  apply UInt64.eq_of_toBitVec_eq
  ext i hi
  by_cases h : i < 16
  · simp [-UInt64.toUInt64_toUInt16, h, hi]
  · simp [-UInt64.toUInt64_toUInt16, h]
    rw [show 16 + (i - 16) = i by omega]
    simp [hi]

def text (header : Header) : String :=
  "Header \x7b type_id: " ++ header.typeId.text ++ ", flags: " ++ header.flags.text ++ " \x7d"

end Header

end Reclaim
