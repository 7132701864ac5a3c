import GuidedDecoding.Number.Width

/-!
# JSON numbers

A numeral without fraction and exponent that fits 64 bits, signed or unsigned, is an integer; every
other one, `-0` among them, is a double. The double is not always the nearest one: the digits go into a
64-bit significand for as long as they fit, digits behind that only count, and one multiplication or
division by a power of ten (several, below `10^-308`) gives the value. A value beyond the largest
double is no number.
-/

namespace GuidedDecoding.Json

/-- A number as a document holds it. -/
inductive Number where
  /-- An integer in the range of 64-bit words, signed or unsigned. -/
  | integer (n : Int)
  | real (x : Float)
  deriving Repr, Inhabited

/-- The parts of a numeral: sign, digits before the point, digits behind it if there is a point, and
the exponent if there is one. -/
structure Numeral where
  negative : Bool
  whole : List Nat
  fraction : Option (List Nat)
  exponent : Option Int
  deriving Repr, Inhabited

namespace Numeral

def significandMax : Nat := Nat.pow 2 64 - 1

/-- Appends digits to a significand for as long as it fits 64 bits: the significand, the number of
digits appended, and the number of those left over. -/
def absorb (significand : Nat) : List Nat → Nat × Nat × Nat
  | [] => (significand, 0, 0)
  | d :: ds =>
    if significand * 10 + d ≤ significandMax then
      let (total, taken, left) := absorb (significand * 10 + d) ds
      (total, taken + 1, left)
    else (significand, 0, ds.length + 1)

/-- The double nearest to `10 ^ n`. -/
def powerOfTen (n : Nat) : Float := Float.ofScientific 1 false n

def powerMax : Nat := 308

/-- `x · 10 ^ exponent`, with one rounding for each factor; nothing when that is too large. -/
def scale (x : Float) (exponent : Int) : Option Float :=
  if exponent.natAbs ≤ powerMax then
    if 0 ≤ exponent then
      let y := x * powerOfTen exponent.toNat
      if y.isInf then none else some y
    else some (x / powerOfTen (-exponent).toNat)
  else if x == 0 then some x
  else if 0 ≤ exponent then none
  -- One division may not be enough, as there are doubles below `10^-308`.
  else scale (x / powerOfTen powerMax) (exponent + powerMax)
termination_by exponent.natAbs
decreasing_by simp_all only [powerMax]; omega

/-- The value of the numeral as a double, nothing when it is too large. -/
def real? (n : Numeral) : Option Float :=
  let (significand, _, left) := absorb 0 n.whole
  let (significand, taken, _) := absorb significand (n.fraction.getD [])
  let exponent := n.exponent.getD 0 + left - taken
  (scale (Float.ofNat significand) exponent).map fun x => if n.negative then -x else x

/-- The value of the numeral when it is an integer that fits 64 bits. `-0` is none. -/
def integer? (n : Numeral) : Option Int :=
  match n.fraction, n.exponent, absorb 0 n.whole with
  | none, none, (value, _, 0) =>
    if !n.negative then some value
    else if 0 < value ∧ value ≤ Nat.pow 2 63 then some (-(value : Int))
    else none
  | _, _, _ => none

def number? (n : Numeral) : Option Number :=
  match n.integer? with
  | some i => some (.integer i)
  | none => n.real?.map .real

end Numeral

end GuidedDecoding.Json
