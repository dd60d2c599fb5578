import Reclaim.Handle
import Reclaim.Object.Payload

namespace Reclaim

inductive ChunkError where
  | badRequest
  | outOfMemory
  deriving DecidableEq

def ChunkError.message : ChunkError → String
  | badRequest => "invalid chunk size requested"
  | outOfMemory => "out of memory"

/-- Where a heap gets its bytes from. `σ` is the state of the embedder, which the memory is part
    of. `release` is given the size that was requested. -/
class RawMemory (σ : Type) where
  request : Word → σ → Except ChunkError Ref × σ
  release : Ref → Word → σ → σ

structure Chunk where
  base : Ref
  size : Word
  contents : Payload := .zero

namespace Chunk

/-- The greatest size that a region aligned to two words can have. -/
def maxSize : Word := 0x7ffffffffffffff0

/-- Sizes from here on are more than a process can address. -/
def unavailableSize : Word := 0x800000000000

def check (size : Word) : Except ChunkError Unit :=
  if size = 0 ∨ maxSize < size then .error .badRequest
  else if unavailableSize ≤ size then .error .outOfMemory
  else .ok ()

def byte (chunk : Chunk) (offset : Word) : UInt8 :=
  chunk.contents.byte offset.toNat

def setByte (chunk : Chunk) (offset : Word) (value : UInt8) : Chunk :=
  { chunk with contents := chunk.contents.setByte offset.toNat value }

def isAligned (chunk : Chunk) : Bool :=
  chunk.base.word % 16 = 0

def isZeroed (chunk : Chunk) : Bool :=
  chunk.contents.isZero chunk.size.toNat

end Chunk

/-- Memory that gives every chunk a place of its own and never uses a place again. -/
structure SystemMemory where
  used : Nat := 0

namespace SystemMemory

def allocate (size : Word) (memory : SystemMemory) : Except ChunkError Chunk × SystemMemory :=
  match Chunk.check size with
  | .error error => (.error error, memory)
  | .ok () =>
    let base : Word := UInt64.ofNat (16 * (memory.used + 1))
    let next : SystemMemory := ⟨memory.used + (size.toNat + 15) / 16⟩
    if 16 * (next.used + 1) ≤ UInt64.size then
      match Ref.ofWord? base with
      | some base => (.ok { base, size }, next)
      | none => (.error .outOfMemory, memory)
    else (.error .outOfMemory, memory)

instance : RawMemory SystemMemory where
  request size memory :=
    match memory.allocate size with
    | (.ok chunk, memory) => (.ok chunk.base, memory)
    | (.error error, memory) => (.error error, memory)
  release _ _ memory := memory

end SystemMemory

end Reclaim
