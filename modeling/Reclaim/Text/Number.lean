import Reclaim.Word.Basic

namespace Reclaim.Text

/-- A number is one or more digits, after an optional plus sign, whose value fits in a word. -/
def readWord? (s : String) : Option Word :=
  let digits : List Char := match s.toList with
    | '+' :: rest => rest
    | rest => rest
  let value := digits.foldl (fun (value : Nat) c => 10 * value + (c.toNat - '0'.toNat)) 0
  if ¬ digits.isEmpty ∧ digits.all Char.isDigit ∧ value < UInt64.size then some (UInt64.ofNat value)
  else none

end Reclaim.Text
