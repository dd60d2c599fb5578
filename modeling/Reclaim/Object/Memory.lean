import Reclaim.Object.Header
import Reclaim.Object.Payload

namespace Reclaim

structure Block where
  header : Word := 0
  payload : Payload := .zero

/-- Memory is a total function from object addresses to blocks. Two addresses never share bytes:
    that is what the embedder's raw memory promises, and an access within the bounds of its own
    object keeps it so. A block keeps its contents after it is released, until its address is
    handed out again and the new object starts out as zeros. -/
structure Memory where
  blocks : Std.TreeMap Ref Block := ∅

namespace Memory

def block (memory : Memory) (object : Ref) : Block :=
  memory.blocks.getD object {}

def setBlock (memory : Memory) (object : Ref) (block : Block) : Memory :=
  { memory with blocks := memory.blocks.insert object block }

theorem block_setBlock (memory : Memory) (a b : Ref) (value : Block) :
    (memory.setBlock a value).block b = if a = b then value else memory.block b := by
  simp [block, setBlock, Std.TreeMap.getD_insert]

@[simp] theorem block_setBlock_self (memory : Memory) (a : Ref) (value : Block) :
    (memory.setBlock a value).block a = value := by
  simp [block_setBlock]

theorem block_setBlock_of_ne (memory : Memory) {a b : Ref} (value : Block) (h : a ≠ b) :
    (memory.setBlock a value).block b = memory.block b := by
  simp [block_setBlock, h]

def clear (memory : Memory) (object : Ref) : Memory :=
  memory.setBlock object {}

def headerWord (memory : Memory) (object : Ref) : Word :=
  (memory.block object).header

def setHeaderWord (memory : Memory) (object : Ref) (word : Word) : Memory :=
  memory.setBlock object { memory.block object with header := word }

def header (memory : Memory) (object : Ref) : Header :=
  .decode (memory.headerWord object)

def setHeader (memory : Memory) (object : Ref) (header : Header) : Memory :=
  memory.setHeaderWord object header.encode

def flags (memory : Memory) (object : Ref) : Flags :=
  (memory.header object).flags

def setFlags (memory : Memory) (object : Ref) (flags : Flags) : Memory :=
  memory.setHeader object ((memory.header object).withFlags flags)

def addFlag (memory : Memory) (object : Ref) (flag : Flags) : Memory :=
  memory.setFlags object ((memory.flags object).union flag)

def removeFlag (memory : Memory) (object : Ref) (flag : Flags) : Memory :=
  memory.setFlags object ((memory.flags object).difference flag)

def isSurviving (memory : Memory) (object : Ref) : Bool :=
  (memory.flags object).contains .surviving

theorem isSurviving_addFlag_self (memory : Memory) (object : Ref) :
    (memory.addFlag object .surviving).isSurviving object = true := by
  rw [isSurviving, Flags.contains_surviving]
  simp only [flags, header, headerWord, addFlag, setFlags, setHeader, setHeaderWord,
    block_setBlock_self, Header.bits_decode_encode]
  simp [Header.withFlags, Flags.union, Flags.surviving]

theorem header_addFlag_of_ne (memory : Memory) {a b : Ref} (flag : Flags) (h : a ≠ b) :
    (memory.addFlag a flag).header b = memory.header b := by
  simp [header, headerWord, addFlag, setFlags, setHeader, setHeaderWord, block_setBlock_of_ne, h]

def payload (memory : Memory) (object : Ref) : Payload :=
  (memory.block object).payload

def setPayload (memory : Memory) (object : Ref) (payload : Payload) : Memory :=
  memory.setBlock object { memory.block object with payload }

def readWord (memory : Memory) (object : Ref) (offset : Word) : Word :=
  (memory.payload object).readWord offset.toNat

def writeWord (memory : Memory) (object : Ref) (offset word : Word) : Memory :=
  memory.setPayload object ((memory.payload object).writeWord offset.toNat word)

def readRef (memory : Memory) (object : Ref) (offset : Word) : Option Ref :=
  Ref.ofWord? (memory.readWord object offset)

def writeBytes (memory : Memory) (object : Ref) (offset : Nat) (bytes : List UInt8) : Memory :=
  memory.setPayload object ((memory.payload object).write offset bytes)

end Memory

end Reclaim
