import GuidedDecoding.Proofs.Number.Interval

/-!
# Bounds of the exponential

The exponential of what is not positive is a number from zero to four (`Single.between_exponential`), however its
argument and all that is worked out on the way are rounded. The argument in steps, `z`, has a nearby whole number in the
low bits of its sum with `wholeShift` (`exists_whole`); what is left of `z` is small, so that the cubic stays near one,
and the whole number lowers the exponent of an entry of the table by no more than it can bear (`between_scale`).
-/

namespace GuidedDecoding
namespace Double

open Float.Model (Format UnpackedFloat)
open Float.Model.UnpackedFloat (Sign unpackExponent unpackSign)
open Rounding

variable {x y z r : Float}

theorem unpack_of_lt {bits : BitVec 64} (hbits : bits.toNat < 2 ^ 62) :
    UnpackedFloat.unpack .binary64 bits = .zero .positive ∨
      ∃ (m : ℕ) (e : ℤ) (hm : 0 < m), UnpackedFloat.unpack .binary64 bits = .finite .positive m e hm ∧ e ≤ -52 := by
  -- the exponent is below its bias, and the sign bit is not set
  have hexponent : (@unpackExponent .binary64 bits).toNat < 1024 := by
    rw [UnpackedFloat.unpackExponent_def, BitVec.extractLsb'_toNat, Nat.shiftRight_eq_div_pow]
    show bits.toNat / 2 ^ 52 % 2 ^ 11 < 1024
    omega
  have hsign : Sign.ofBitVec (@unpackSign .binary64 bits) = .positive := by
    have hzero : @unpackSign .binary64 bits = 0#1 := by
      apply BitVec.eq_of_toNat_eq
      rw [UnpackedFloat.unpackSign_def, BitVec.extractLsb'_toNat, Nat.shiftRight_eq_div_pow]
      show bits.toNat / 2 ^ 63 % 2 ^ 1 = 0
      omega
    rw [hzero]
    rfl
  have hbias : (Format.binary64.exponentBias : ℤ) = 1023 := rfl
  rw [UnpackedFloat.unpack]
  simp only [hsign, hbias]
  split
  · next hfull =>
    rw [hfull] at hexponent
    exact absurd hexponent (by decide)
  · split
    · next hzero =>
      split
      · exact Or.inl rfl
      · next hne =>
        refine Or.inr ⟨_, _, Nat.pos_of_ne_zero fun h => hne (BitVec.eq_of_toNat_eq h), rfl, ?_⟩
        rw [hzero]
        decide
    · exact Or.inr ⟨_, _, by rw [toNat_implicit]; positivity, rfl, by omega⟩

/-- Bits below those of two are the bits of a number from zero to two. -/
theorem between_ofBits {bits : UInt64} (hbits : bits.toNat < 2 ^ 62) :
    Between 0 2 (exactValue (Float.ofBits bits)) := by
  have hzero : Representable .binary64 0 := representable_int 0 (by norm_num) (by norm_num)
  have htwo : Representable .binary64 2 := representable_int 2 (by norm_num) (by norm_num)
  show Between 0 2 (stored .binary64 (UnpackedFloat.unpack .binary64 bits.toBitVec))
  have hcanonical := @canonical_unpack .binary64 bits.toBitVec
  rcases unpack_of_lt hbits with hunpack | ⟨m, e, hm, hunpack, he⟩
  · rw [hunpack]
    exact (rounds_zero .binary64 .positive).between hzero htwo le_rfl zero_le_two
  · rw [hunpack] at hcanonical ⊢
    have hq : rational? (.finite .positive m e hm) = some ((m : ℚ) * 2 ^ e) := rfl
    refine (hcanonical.rounds hq).between hzero htwo (by positivity) ?_
    calc (m * 2 ^ e : ℚ) ≤ 2 ^ 53 * 2 ^ (-52 : ℤ) := by
          have hcast : (m : ℚ) ≤ 2 ^ 53 := by exact_mod_cast (Ulp.mantissa_lt hcanonical).le
          gcongr
          exact one_le_two
      _ = 2 := by norm_num

/-- The magnitude is at most a power of one half. -/
def Small (k : ℕ) (x : Float) : Prop := Between (-(1 / 2 ^ k)) (1 / 2 ^ k) (exactValue x)

theorem representable_half_pow {k : ℕ} (hk : k ≤ 1000) :
    Representable .binary64 (-(1 / 2 ^ k)) ∧ Representable .binary64 (1 / 2 ^ k) :=
  ⟨representable_div (-1) k (by rw [Int.cast_neg, Int.cast_one, neg_div]) (by norm_num) hk,
    representable_div 1 k (by rw [Int.cast_one]) (by norm_num) hk⟩

/-- Small numbers have a smaller product. -/
theorem Small.mul {j k : ℕ} (hx : Small j x) (hy : Small k y) (hjk : j + k ≤ 1000) : Small (j + k) (x * y) := by
  obtain ⟨hlo, hhi⟩ := representable_half_pow hjk
  refine between_mul hx hy hlo hhi fun p q hp hp' hq hq' => ?_
  have habs : |p * q| ≤ 1 / 2 ^ (j + k) := by
    rw [abs_mul, pow_add, ← one_div_mul_one_div]
    exact mul_le_mul (abs_le.mpr ⟨hp, hp'⟩) (abs_le.mpr ⟨hq, hq'⟩) (abs_nonneg q) (by positivity)
  exact abs_le.mp habs

theorem Small.mono {j k : ℕ} (hx : Small k x) (hjk : j ≤ k) : Small j x := by
  obtain ⟨q, hq, hlo, hhi⟩ := hx
  have hle : (1 : ℚ) / 2 ^ k ≤ 1 / 2 ^ j := one_div_le_one_div_of_le (by positivity) (pow_le_pow_right₀ one_le_two hjk)
  exact ⟨q, hq, by linarith, by linarith⟩

theorem Small.add {k : ℕ} (hx : Small (k + 1) x) (hy : Small (k + 1) y) (hk : k ≤ 1000) : Small k (x + y) := by
  obtain ⟨hlo, hhi⟩ := representable_half_pow hk
  have hhalf : (1 : ℚ) / 2 ^ (k + 1) = 1 / 2 ^ k / 2 := by rw [pow_succ, div_div]
  exact between_add hx hy hlo hhi (by linarith) (by linarith)

/-- The cubic stays near one. -/
theorem between_smallPower (hr : Small 0 r) : Between (1 / 2) 2 (exactValue (smallPower r)) := by
  have hthird : Small 13 (Float.ofBits 0x3EBC6AF84B912394) :=
    ⟨(0x1C6AF84B912394 : ℕ) * 2 ^ (-72 : ℤ), rfl, by norm_num, by norm_num⟩
  have hsecond : Small 12 (Float.ofBits 0x3F2EBFCE50FAC4F3) :=
    ⟨(0x1EBFCE50FAC4F3 : ℕ) * 2 ^ (-65 : ℤ), rfl, by norm_num, by norm_num⟩
  have hfirst : Small 5 (Float.ofBits 0x3F962E42FF0C52D6) :=
    ⟨(0x162E42FF0C52D6 : ℕ) * 2 ^ (-58 : ℤ), rfl, by norm_num, by norm_num⟩
  have hone : Between 1 1 (exactValue 1) := ⟨(2 ^ 52 : ℕ) * 2 ^ (-52 : ℤ), rfl, by norm_num, by norm_num⟩
  have hhigh : Small 11 (Float.ofBits 0x3EBC6AF84B912394 * r + Float.ofBits 0x3F2EBFCE50FAC4F3) :=
    ((hthird.mul hr (by omega)).mono (by omega)).add hsecond (by omega)
  have hcurved := hhigh.mul (hr.mul hr (by omega)) (by omega)
  have hlow : Between (1 - 1 / 2 ^ 5) (1 + 1 / 2 ^ 5) (exactValue (Float.ofBits 0x3F962E42FF0C52D6 * r + 1)) :=
    between_add (hfirst.mul hr (by omega)) hone (representable_div 31 5 (by norm_num) (by norm_num) (by omega))
      (representable_div 33 5 (by norm_num) (by norm_num) (by omega)) (by norm_num) (by norm_num)
  exact between_add hcurved hlow (representable_div 1 1 (by norm_num) (by norm_num) (by omega))
    (representable_int 2 (by norm_num) (by norm_num)) (by norm_num) (by norm_num)

theorem rational?_wholeShift : rational? (exactValue wholeShift) = some 0x18000000000000 := by
  have hvalue : rational? (exactValue wholeShift) = some (((0x18000000000000 : ℕ) : ℚ) * 2 ^ (0 : ℤ)) := rfl
  rw [hvalue, zpow_zero, mul_one, Nat.cast_ofNat]

/-- The sum with `wholeShift` has a nearby whole number in its low bits, and what is left is small. -/
theorem exists_whole (hz : Between (-4888) 0 (exactValue z)) :
    ∃ n : ℕ, n ≤ 4888 ∧ (z + wholeShift).toBits.toNat + n = 0x4338000000000000 ∧
      Small 0 (z - (z + wholeShift - wholeShift)) := by
  obtain ⟨q, hq, hlow, hhigh⟩ := hz
  have hfloor : -4888 ≤ ⌊q⌋ := Int.le_floor.mpr (by exact_mod_cast hlow)
  have hceil : ⌈q⌉ ≤ 0 := Int.ceil_le.mpr (by exact_mod_cast hhigh)
  have hle := Int.floor_le_ceil q
  have hfloor' : (-4888 : ℚ) ≤ ⌊q⌋ := by exact_mod_cast hfloor
  have hceil' : (⌈q⌉ : ℚ) ≤ 0 := by exact_mod_cast hceil
  have hwhole {i : ℤ} (hi : -4888 ≤ i) (hi' : i ≤ 0) : Representable .binary64 (i + 0x18000000000000) :=
    representable_int (i + 0x18000000000000) (by push_cast; rfl) (by rw [abs_lt]; constructor <;> omega)
  -- The sum lies between the whole numbers around it, and so far up it is one itself.
  obtain ⟨v, hv, hvlow, hvhigh⟩ : Between (⌊q⌋ + 0x18000000000000) (⌈q⌉ + 0x18000000000000)
      (exactValue (z + wholeShift)) :=
    between_add ⟨q, hq, le_rfl, le_rfl⟩ ⟨_, rational?_wholeShift, le_rfl, le_rfl⟩ (hwhole hfloor (hle.trans hceil))
      (hwhole (hfloor.trans hle) hceil) (by linarith [Int.floor_le q]) (by linarith [Int.le_ceil q])
  obtain ⟨m, rfl, hbits⟩ := exists_nat_of_rational hv (by norm_num; linarith) (by norm_num; linarith)
  have hmlow : ⌊q⌋ + 0x18000000000000 ≤ (m : ℤ) := by exact_mod_cast hvlow
  have hmhigh : (m : ℤ) ≤ ⌈q⌉ + 0x18000000000000 := by exact_mod_cast hvhigh
  refine ⟨0x18000000000000 - m, by omega, by omega, ?_⟩
  have hback : Between (m - 0x18000000000000) (m - 0x18000000000000) (exactValue (z + wholeShift - wholeShift)) := by
    have hrep : Representable .binary64 (m - 0x18000000000000) :=
      representable_int (m - 0x18000000000000) (by push_cast; rfl) (by rw [abs_lt]; constructor <;> omega)
    exact between_sub ⟨m, hv, le_rfl, le_rfl⟩ ⟨_, rational?_wholeShift, le_rfl, le_rfl⟩ hrep hrep le_rfl le_rfl
  obtain ⟨hlo, hhi⟩ := representable_half_pow (Nat.zero_le 1000)
  refine between_sub ⟨q, hq, le_rfl, le_rfl⟩ hback hlo hhi ?_ ?_
  · linarith [Int.ceil_lt_add_one q]
  · linarith [Int.sub_one_lt_floor q]

/-- The table holds doubles from one up to two. -/
theorem powerBits_bounds {bits : UInt64} (h : bits ∈ powerBits) :
    0x3FF0000000000000 ≤ bits.toNat ∧ bits.toNat < 0x4000000000000000 := by
  have hall : powerBits.all fun bits => 0x3FF0000000000000 ≤ bits && bits < 0x4000000000000000 := by decide
  have hbits := List.all_eq_true.mp hall bits h
  rwa [Bool.and_eq_true, decide_eq_true_eq, decide_eq_true_eq] at hbits

/-- An entry of the table, its exponent lowered by what a few steps take. -/
theorem between_scale {k : UInt64} {n : ℕ} (hn : n ≤ 4888) (hk : k.toNat + n = 0x4338000000000000) :
    Between 0 2 (exactValue (Float.ofBits (powerBits[(k % 32).toNat]?.getD 0 + (k >>> 5 <<< 52)))) := by
  have hindex : (k % 32).toNat < powerBits.length := by
    have hlength : powerBits.length = 32 := rfl
    rw [hlength, UInt64.toNat_mod]
    exact Nat.mod_lt k.toNat (show 0 < 32 by omega)
  have hentry : powerBits[(k % 32).toNat]?.getD 0 ∈ powerBits := by
    rw [List.getElem?_eq_getElem hindex, Option.getD_some]
    exact List.getElem_mem hindex
  obtain ⟨hlow, hhigh⟩ := powerBits_bounds hentry
  refine between_ofBits ?_
  generalize powerBits[(k % 32).toNat]?.getD 0 = entry at hlow hhigh
  rw [UInt64.toNat_add, UInt64.toNat_shiftLeft, UInt64.toNat_shiftRight, Nat.shiftLeft_eq, Nat.shiftRight_eq_div_pow]
  show (entry.toNat + k.toNat / 2 ^ 5 * 2 ^ 52 % 2 ^ 64) % 2 ^ 64 < 2 ^ 62
  omega

/-- A power of two with an exponent that is not positive, nor too low for doubles. -/
theorem between_powerOfTwo (hz : Between (-4888) 0 (exactValue z)) : Between 0 4 (exactValue (powerOfTwo z)) := by
  obtain ⟨n, hn, hbits, hrest⟩ := exists_whole hz
  rw [powerOfTwo]
  refine between_mul (between_smallPower hrest) (between_scale hn hbits) ?_ ?_ fun p q hp hp' hq hq' => ?_
  · exact representable_int 0 (by norm_num) (by norm_num)
  · exact representable_int 4 (by norm_num) (by norm_num)
  · constructor <;> nlinarith

end Double

namespace Single

open Rounding

theorem exponential_zero : exponential 0 = 1 := by decide +kernel

/-- The exponential of what is not positive is a number, and not a great one. -/
theorem between_exponential {x : Float32} (hx : x = minusInfinity ∨ ∃ q ≤ 0, rational? (exactValue x) = some q) :
    Between 0 4 (exactValue (exponential x)) := by
  have hnothing : Between 0 4 (exactValue 0) := ⟨0, rfl, le_rfl, by norm_num⟩
  rcases hx with rfl | ⟨q, hq, hx⟩
  · have hzero : exponential minusInfinity = 0 := by decide
    rwa [hzero]
  · have hnumber : ¬x.isNaN = true := by
      rw [isNaN_iff]
      intro hnan
      rw [hnan] at hx
      cases hx
    have htop : rational? (exactValue exponentialTop) = some (((0xB17217 : ℕ) : ℚ) * 2 ^ (-17 : ℤ)) := rfl
    have hbottom : rational? (exactValue exponentialBottom) = some (-(((0xCFF1B4 : ℕ) : ℚ) * 2 ^ (-17 : ℤ))) := rfl
    -- the bounds of each step are numbers of the format, so rounding does not leave them
    have hsteps : Between 46 47 (Double.exactValue stepsPerUnit) :=
      ⟨((0x171547652B82FE : ℕ) : ℚ) * 2 ^ (-47 : ℤ), rfl, by norm_num, by norm_num⟩
    rw [exponential, if_neg hnumber, if_neg]
    · split
      · exact hnothing
      · next hge =>
        rw [lt_iff_of_rational hx hbottom, not_lt] at hge
        have hlow : -104 ≤ q := by norm_num at hge; linarith
        have hwide : Between (-104) 0 (Double.exactValue (widen x)) :=
          Double.between_widen ⟨q, hx, hlow, hq⟩
            (Double.representable_int (-104) (by norm_num) (by norm_num))
            (Double.representable_int 0 (by norm_num) (by norm_num))
        have hscaled : Between (-4888) 0 (Double.exactValue (stepsPerUnit * widen x)) := by
          refine Double.between_mul hsteps hwide ?_ ?_ fun p q hp hp' hq hq' => ?_
          · exact Double.representable_int (-4888) (by norm_num) (by norm_num)
          · exact Double.representable_int 0 (by norm_num) (by norm_num)
          · constructor <;> nlinarith
        exact Double.between_narrow (Double.between_powerOfTwo hscaled)
          (representable_int 0 (by norm_num) (by norm_num)) (representable_int 4 (by norm_num) (by norm_num))
    · rw [lt_iff_of_rational htop hx, not_lt]
      exact hq.trans (by positivity)

end Single
end GuidedDecoding
