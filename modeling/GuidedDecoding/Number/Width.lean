/-!
# Single and double precision

Logits are single-precision numbers, documents and scale factors double-precision ones. Both
conversions go through the exact value: `widen` loses nothing, `narrow` rounds to the nearest single,
ties to even, and overflows to an infinity. A model may give its scores in one of two formats of sixteen
bits, which `widenShort` turns into singles without loss.

`naturalValue?` tells which natural number a double is exactly.
-/

namespace GuidedDecoding

open Float.Model (UnpackedFloat Format)

def roundTo (format : Format) : UnpackedFloat → UnpackedFloat
  | .finite sign mantissa exponent _ => UnpackedFloat.round format sign mantissa exponent
  | other => other

/-- The double with the value of a single. -/
def widen (x : Float32) : Float :=
  Float.ofBits (Float.Model.pack (roundTo .binary64 (Float32.Model.ofBits x.toBits).unpack)).toBits

def narrow (x : Float) : Float32 :=
  Float32.ofBits (Float32.Model.pack (roundTo .binary32 (Float.Model.ofBits x.toBits).unpack)).toBits

abbrev halfFormat : Format := { mantissaBitsWithoutImplicit := 10, exponentBits := 5 }

/-- The upper half of a single: all of its exponent, and seven bits of its mantissa. -/
abbrev bfloatFormat : Format := { Format.binary32 with mantissaBitsWithoutImplicit := 7, hm := by decide }

/-- The single with the value of a number in a shorter format. -/
def widenShort (format : Format) (bits : BitVec format.numBits) : Float32 :=
  Float32.ofBits (Float32.Model.pack (roundTo .binary32 (UnpackedFloat.unpack format bits))).toBits

/-- The natural number that an exact value is, if it is one. -/
def exactNatural? : UnpackedFloat → Option Nat
  | .zero _ => some 0
  | .finite .positive mantissa exponent _ =>
    if 0 ≤ exponent then some (mantissa * Nat.pow 2 exponent.toNat)
    else if mantissa % Nat.pow 2 (-exponent).toNat = 0 then
      some (mantissa / Nat.pow 2 (-exponent).toNat)
    else none
  | _ => none

/-- The natural number that a double is, if it is one; both zeros are `0`. -/
def naturalValue? (x : Float) : Option Nat := exactNatural? (Float.Model.ofBits x.toBits).unpack

end GuidedDecoding
