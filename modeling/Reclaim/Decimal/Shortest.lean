namespace Reclaim.Decimal

structure Binary where
  significand : Nat
  exponent : Int

structure Scaled where
  digits : Nat
  exponent : Int
  deriving DecidableEq, Repr

namespace Binary

/-- The reals that round to a double form an interval around it, whose ends belong to it exactly if
    the significand is even. Here is the distance to the lower end, in quarters of the double's last
    place. The doubles below a power of two lie twice as close, except for the least normal one. -/
def lowerQuarters (x : Binary) : Nat :=
  if x.significand = 1 <<< 52 ∧ x.exponent ≠ -1074 then 1 else 2

/-- The multiple of `10^k` that is nearest to `x` among those that read back as `x`. -/
def onGrid? (x : Binary) (k : Int) : Option Scaled :=
  let q := x.exponent - 2
  let scale := (1 <<< q.toNat) * Nat.pow 10 (-k).toNat
  let unit := (1 <<< (-q).toNat) * Nat.pow 10 k.toNat
  let value := 4 * x.significand * scale
  let low := (4 * x.significand - x.lowerQuarters) * scale
  let high := (4 * x.significand + 2) * scale
  let inside (d : Nat) : Bool :=
    if x.significand % 2 = 0 then low ≤ d * unit ∧ d * unit ≤ high
    else low < d * unit ∧ d * unit < high
  let below := value / unit
  let above := below + 1
  if inside above ∧ (¬ inside below ∨ above * unit - value ≤ value - below * unit) then
    some ⟨above, k⟩
  else if inside below then some ⟨below, k⟩
  else none

/-- The powers of ten are tried from the greatest a double can reach down to the finest that any
    double needs. -/
def shortest (x : Binary) : Scaled :=
  ((List.range 640).findSome? fun (i : Nat) => x.onGrid? (310 - (i : Int))).getD ⟨x.significand, 0⟩

end Binary

def Scaled.text (x : Scaled) : String :=
  let digits := toString x.digits
  if 0 ≤ x.exponent then digits ++ String.ofList (List.replicate x.exponent.toNat '0')
  else
    let places := (-x.exponent).toNat
    let padded := String.ofList (List.replicate (places + 1 - digits.length) '0') ++ digits
    let cut := padded.length - places
    String.ofList (padded.toList.take cut) ++ "." ++ String.ofList (padded.toList.drop cut)

def text (x : Float) : String :=
  let bits : Nat := x.toBits.toNat
  let sign := if bits >>> 63 = 1 then "-" else ""
  let biased : Nat := (bits >>> 52) % 2048
  let fraction : Nat := bits % (1 <<< 52)
  if biased = 2047 then
    if fraction = 0 then sign ++ "inf" else "NaN"
  else if biased = 0 then
    if fraction = 0 then sign ++ "0"
    else sign ++ (Binary.mk fraction (-1074)).shortest.text
  else sign ++ (Binary.mk ((1 <<< 52) + fraction) ((biased : Int) - 1075)).shortest.text

end Reclaim.Decimal
