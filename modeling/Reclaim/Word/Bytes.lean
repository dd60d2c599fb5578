import Reclaim.Word.Basic

namespace Reclaim.Word

def toBytes (w : Word) : List UInt8 :=
  (List.range 8).map fun i => (w >>> (8 * UInt64.ofNat i)).toUInt8

def ofBytes (bytes : List UInt8) : Word :=
  bytes.foldr (fun byte rest => (rest <<< 8) ||| byte.toUInt64) 0

@[simp] theorem length_toBytes (w : Word) : w.toBytes.length = 8 := rfl

end Reclaim.Word
