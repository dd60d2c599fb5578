import Reclaim.Word.Bytes
import Std.Data.TreeMap

namespace Reclaim

/-- A payload is a total function from offsets to bytes; a byte that was never written is zero. How
    many of the bytes belong to the object is not known here: bounds are checked where a payload is
    viewed. -/
structure Payload where
  written : Std.TreeMap Nat UInt8 := ∅

namespace Payload

def zero : Payload := {}

def byte (payload : Payload) (offset : Nat) : UInt8 :=
  payload.written.getD offset 0

def setByte (payload : Payload) (offset : Nat) (value : UInt8) : Payload :=
  { payload with written := payload.written.insert offset value }

def write (payload : Payload) (offset : Nat) : List UInt8 → Payload
  | [] => payload
  | value :: rest => (payload.setByte offset value).write (offset + 1) rest

def read (payload : Payload) (offset count : Nat) : List UInt8 :=
  (List.range count).map fun i => payload.byte (offset + i)

def readWord (payload : Payload) (offset : Nat) : Word :=
  Word.ofBytes (payload.read offset 8)

def writeWord (payload : Payload) (offset : Nat) (word : Word) : Payload :=
  payload.write offset word.toBytes

def isZero (payload : Payload) (count : Nat) : Bool :=
  payload.written.toList.all fun entry => count ≤ entry.1 || entry.2 == 0

@[simp] theorem byte_zero (offset : Nat) : zero.byte offset = 0 := by
  simp [byte, zero]

theorem byte_setByte (payload : Payload) (i j : Nat) (value : UInt8) :
    (payload.setByte i value).byte j = if i = j then value else payload.byte j := by
  simp [byte, setByte, Std.TreeMap.getD_insert]

theorem byte_write_of_lt (payload : Payload) (bytes : List UInt8) {i j : Nat} (h : j < i) :
    (payload.write i bytes).byte j = payload.byte j := by
  induction bytes generalizing payload i with
  | nil => rfl
  | cons value rest ih =>
    rw [write, ih _ (by omega), byte_setByte, if_neg (by omega)]

theorem byte_write (payload : Payload) (bytes : List UInt8) (i j : Nat) :
    (payload.write i bytes).byte j =
      if i ≤ j then bytes[j - i]?.getD (payload.byte j) else payload.byte j := by
  induction bytes generalizing payload i with
  | nil => simp [write]
  | cons value rest ih =>
    rw [write]
    by_cases same : i = j
    · subst same
      rw [byte_write_of_lt _ _ (by omega), byte_setByte, if_pos rfl]
      simp
    · rw [ih, byte_setByte, if_neg same]
      by_cases after : i ≤ j
      · have position : j - i = (j - (i + 1)) + 1 := by omega
        rw [if_pos (by omega), if_pos after, position, List.getElem?_cons_succ]
      · rw [if_neg (by omega), if_neg after]

end Payload

end Reclaim
