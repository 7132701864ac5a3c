import GuidedDecoding.Proofs.Number.Arithmetic

/-!
# Stored numbers

A canonical value is stored as it is, unless its exponent is too great; then it is stored as an infinity
(`stored_finite`, `stored_overflow`). So nothing overflows between two numbers of the format (`Rounds.stored_eq`). What
was stored is canonical (`canonical_unpack`), and canonical values are compared as the numbers they stand for
(`compare_eq`).
-/

namespace GuidedDecoding
namespace Rounding

open Float.Model (Format UnpackedFloat totalExponent)
open Float.Model.UnpackedFloat (Sign packComponents packedInfinity)

variable {F : Format} {s : Sign} {m n : ℕ} {e t : ℤ} {q v x y lo hi : ℚ} {a b u : UnpackedFloat}

def stored (F : Format) (u : UnpackedFloat) : UnpackedFloat := UnpackedFloat.unpack F (UnpackedFloat.pack F u)

theorem minExponent_eq (F : Format) :
    F.minExponent = 1 - (F.exponentBias + F.mantissaBitsWithoutImplicit) := by
  have hpower : 1 ≤ 2 ^ (F.exponentBits - 1) := Nat.one_le_two_pow
  rw [Format.minExponent, Format.exponentBias, Format.mantissaBits]
  push_cast [hpower]
  ring

theorem exponentBias_eq (F : Format) : 2 ^ F.exponentBits = 2 * F.exponentBias + 2 := by
  have hpower : 1 ≤ 2 ^ (F.exponentBits - 1) := Nat.one_le_two_pow
  have he : F.exponentBits = F.exponentBits - 1 + 1 := by have := F.he; omega
  conv_lhs => rw [he, pow_succ]
  rw [Format.exponentBias]
  omega

theorem toNat_append {v w : ℕ} (b : BitVec v) (b' : BitVec w) : (b ++ b').toNat = b.toNat * 2 ^ w + b'.toNat := by
  rw [BitVec.toNat_append, ← Nat.shiftLeft_add_eq_or_of_lt b'.isLt, Nat.shiftLeft_eq]

/-- The leading bit of a mantissa is not stored. -/
theorem toNat_implicit {w : ℕ} (b : BitVec w) : (1#1 ++ b).toNat = 2 ^ w + b.toNat := by
  rw [toNat_append, BitVec.toNat_ofNat, Nat.one_mod_two_pow_eq_one.mpr one_pos, one_mul]

/-- A value that was stored is canonical. -/
theorem canonical_unpack (b : BitVec F.numBits) : Canonical F (UnpackedFloat.unpack F b) := by
  have hp := mantissaBits_eq F
  have hmin := minExponent_eq F
  have hlt (mantissa : BitVec F.mantissaBitsWithoutImplicit) : 2 ^ F.mantissaBitsWithoutImplicit + mantissa.toNat <
      2 ^ F.mantissaBits := by
    rw [hp, pow_succ]
    have := mantissa.isLt
    omega
  -- neither infinity nor what is no number has to be canonical; the other three cases are zero, subnormal
  -- and normal
  fun_cases UnpackedFloat.unpack F b with
  | case1 => exact trivial
  | case2 => exact trivial
  | case3 => exact trivial
  | case4 mantissa exponentVec exponent sign s _ hzero hmantissa =>
    have he : exponent + 1 = F.minExponent := by
      simp only [exponent, hzero, BitVec.toNat_ofNat, Nat.zero_mod]
      omega
    exact ulp_of_mantissa (by have := hlt mantissa; omega) he.ge (Or.inl he)
  | case5 mantissa exponentVec exponent sign s _ hzero =>
    have hpos : exponentVec.toNat ≠ 0 := fun h => hzero (BitVec.eq_of_toNat_eq h)
    refine ulp_of_mantissa ?_ (by omega) (Or.inr ?_)
    · rw [toNat_implicit]
      exact hlt mantissa
    · rw [toNat_implicit]
      exact Nat.le_add_right _ _

theorem stored_infinity (F : Format) (s : Sign) : stored F (.infinity s) = .infinity s := by
  simp [stored, UnpackedFloat.pack, packedInfinity, UnpackedFloat.unpack]

theorem toNat_allOnes (w : ℕ) : (-1#w).toNat = 2 ^ w - 1 := by
  rw [BitVec.neg_one_eq_allOnes, BitVec.toNat_allOnes]

/-- Behind an exponent that is neither the least nor the greatest one the mantissa lacks its first bit. -/
theorem unpack_normal {exponent : BitVec F.exponentBits} {mantissa : BitVec F.mantissaBitsWithoutImplicit} {hm : 0 < m}
    (hpos : 0 < exponent.toNat) (hlt : exponent.toNat + 1 < 2 ^ F.exponentBits)
    (he : exponent.toNat - (F.exponentBias + F.mantissaBitsWithoutImplicit : ℤ) = e)
    (hmantissa : 2 ^ F.mantissaBitsWithoutImplicit + mantissa.toNat = m) :
    UnpackedFloat.unpack F (packComponents F s exponent mantissa) = .finite s m e hm := by
  have hne : exponent ≠ -1#_ := by
    rintro rfl
    rw [toNat_allOnes] at hlt
    omega
  have hne' : exponent ≠ 0#_ := by
    rintro rfl
    exact hpos.ne' (BitVec.toNat_ofNat _ _ ▸ Nat.zero_mod _)
  have hwhole : (1#1 ++ mantissa).toNat = m := (toNat_implicit mantissa).trans hmantissa
  simp [UnpackedFloat.unpack, hne, hne', hwhole, he]

/-- Behind the least exponent the mantissa lacks nothing. -/
theorem unpack_subnormal {mantissa : BitVec F.mantissaBitsWithoutImplicit} {hm : 0 < m}
    (hmantissa : mantissa.toNat = m) :
    UnpackedFloat.unpack F (packComponents F s 0#_ mantissa) = .finite s m F.minExponent hm := by
  have hne : 0#F.exponentBits ≠ -1#_ := by
    intro heq
    have hzero := congrArg BitVec.toNat heq
    have hbias := exponentBias_eq F
    rw [toNat_allOnes, BitVec.toNat_ofNat, Nat.zero_mod] at hzero
    omega
  have hne' : mantissa ≠ 0#_ := by
    rintro rfl
    rw [BitVec.toNat_ofNat, Nat.zero_mod] at hmantissa
    omega
  have hmin := minExponent_eq F
  simp [UnpackedFloat.unpack, hne, hne', hmantissa]
  omega

/-- A canonical value whose exponent is not too great is stored as it is. -/
theorem stored_finite {hm : 0 < m} (h : Canonical F (.finite s m e hm))
    (he : e + F.mantissaBitsWithoutImplicit ≤ F.exponentBias) :
    stored F (.finite s m e hm) = .finite s m e hm := by
  have hp := mantissaBits_eq F
  have hbias := exponentBias_eq F
  have hmin := minExponent_eq F
  have hmin' := Ulp.min_le h
  have hlt := Ulp.mantissa_lt h
  have hlog : m.log2 < F.mantissaBits := (Nat.log2_lt hm.ne').mpr hlt
  rw [stored, UnpackedFloat.pack]
  generalize hbiased : (e + F.exponentBias + F.mantissaBitsWithoutImplicit).toNat = biased
  rw [if_neg (by omega)]
  -- a mantissa with its leading bit is stored as a normal number, a shorter one as a subnormal one
  split
  · next hnormal =>
    have hexponent : (BitVec.ofNat F.exponentBits biased).toNat = biased := by
      rw [BitVec.toNat_ofNat, Nat.mod_eq_of_lt (by omega)]
    have hge : 2 ^ F.mantissaBitsWithoutImplicit ≤ m := (Nat.le_log2 hm.ne').mp (by omega)
    refine unpack_normal ?_ ?_ ?_ ?_
    · rw [hexponent]
      omega
    · rw [hexponent]
      omega
    · rw [hexponent]
      omega
    · rw [hp, pow_succ] at hlt
      rw [BitVec.toNat_ofNat, Nat.mod_eq_sub_mod hge, Nat.mod_eq_of_lt (by omega)]
      omega
  · next hshort =>
    have hlt' : m < 2 ^ F.mantissaBitsWithoutImplicit := (Nat.log2_lt hm.ne').mp (by omega)
    obtain rfl : e = F.minExponent := (Ulp.mantissa_ge h).resolve_right (by omega)
    refine unpack_subnormal ?_
    rw [BitVec.toNat_ofNat, Nat.mod_eq_of_lt hlt']

/-- A canonical value whose exponent is too great is stored as an infinity. -/
theorem stored_overflow {hm : 0 < m}
    (he : F.exponentBias < e + F.mantissaBitsWithoutImplicit) :
    stored F (.finite s m e hm) = .infinity s := by
  have hbias := exponentBias_eq F
  rw [← stored_infinity F, stored, UnpackedFloat.pack, if_pos (by omega)]
  rfl

/-! ### Bounds -/

def Representable (F : Format) (q : ℚ) : Prop :=
  ∃ (n e : ℤ), |n| < 2 ^ F.mantissaBits ∧ F.minExponent ≤ e ∧
    e + F.mantissaBitsWithoutImplicit ≤ F.exponentBias ∧ q = n * 2 ^ e

theorem Representable.grid (h : Representable F q) : Grid F q := by
  obtain ⟨n, e, hn, he, -, hq⟩ := h
  exact ⟨n, e, hn, he, hq⟩

/-- A canonical magnitude that is not above a number of the format is stored as it is. -/
theorem stored_of_le {hm : 0 < m} (h : Canonical F (.finite s m e hm)) (hx : Representable F x)
    (hle : (m * 2 ^ e : ℚ) ≤ |x|) : stored F (.finite s m e hm) = .finite s m e hm := by
  obtain ⟨n, f, hn, hmin, hf, rfl⟩ := hx
  refine stored_finite h ?_
  rcases Ulp.ge h with he | hfull
  · omega
  · by_contra! hlt
    have hbelow : |(n * 2 ^ f : ℚ)| < 2 ^ F.mantissaBits * 2 ^ f := by
      rw [abs_mul, abs_of_pos (a := (2 ^ f : ℚ)) (by positivity)]
      have hcast : |(n : ℚ)| < 2 ^ F.mantissaBits := by exact_mod_cast hn
      gcongr
    have := full_le F (e := f) (t := e) (by omega)
    linarith

theorem stored_zero (F : Format) (s : Sign) : stored F (.zero s) = .zero s := UnpackedFloat.unpack_packedZero

theorem signed_positive_pos (hm : 0 < m) (e : ℤ) : 0 < signed .positive (m * 2 ^ e) := by
  have hcast : (0 : ℚ) < m := by exact_mod_cast hm
  rw [signed]
  positivity

theorem signed_negative_neg (hm : 0 < m) (e : ℤ) : signed .negative (m * 2 ^ e) < 0 :=
  neg_neg_of_pos (signed_positive_pos hm e)

/-- What rounds a number between two of the format is stored as it is. -/
theorem Rounds.stored_eq (h : Rounds F q u) (hlo : Representable F lo) (hhi : Representable F hi) (hq : lo ≤ q)
    (hq' : q ≤ hi) : stored F u = u := by
  obtain ⟨hcanonical, v, hv, hnear⟩ := h
  have hge := hnear.ge hlo.grid hq
  have hle := hnear.le hhi.grid hq'
  rcases cases_of_rational? hv with ⟨s, rfl, rfl⟩ | ⟨s, m, e, hm, rfl, rfl⟩
  · exact stored_zero F s
  · cases s with
    | positive => exact stored_of_le hcanonical hhi (hle.trans (le_abs_self hi))
    | negative => exact stored_of_le hcanonical hlo ((le_neg_of_le_neg hge).trans (neg_le_abs lo))

/-- What rounds a number that is not positive is stored as it is, or as negative infinity. -/
theorem Rounds.stored_of_nonpos (h : Rounds F q u) (hq : q ≤ 0) :
    stored F u = .infinity .negative ∨ stored F u = u := by
  obtain ⟨hcanonical, v, hv, hnear⟩ := h
  have hle := hnear.le (grid_zero F) hq
  rcases cases_of_rational? hv with ⟨s, rfl, rfl⟩ | ⟨s, m, e, hm, rfl, rfl⟩
  · exact Or.inr (stored_zero F s)
  · cases s with
    | positive => exact absurd hle (not_le.mpr (signed_positive_pos hm e))
    | negative =>
      rcases le_or_gt (e + F.mantissaBitsWithoutImplicit) F.exponentBias with he | he
      · exact Or.inr (stored_finite hcanonical he)
      · exact Or.inl (stored_overflow he)

/-! ### Order -/

/-- Magnitudes are compared by their units and then by their mantissas. -/
theorem compare_mantissas {k : ℕ} {f : ℤ} (h : Ulp F e (m * 2 ^ e)) (h' : Ulp F f (k * 2 ^ f)) :
    (compare e f).then (compare m k) = compare (m * 2 ^ e : ℚ) (k * 2 ^ f) := by
  have hbelow {m k : ℕ} {e f : ℤ} (h : Ulp F e (m * 2 ^ e)) (h' : Ulp F f (k * 2 ^ f)) (hlt : e < f) :
      (m * 2 ^ e : ℚ) < k * 2 ^ f :=
    h.lt.trans_le ((full_le F hlt).trans (h'.ge.resolve_left (h.min_le.trans_lt hlt).ne'))
  cases he : compare e f with
  | lt => exact (compare_lt_iff_lt.mpr (hbelow h h' (compare_lt_iff_lt.mp he))).symm
  | gt => exact (compare_gt_iff_gt.mpr (hbelow h' h (compare_gt_iff_gt.mp he))).symm
  | eq =>
    obtain rfl := compare_eq_iff_eq.mp he
    have hunit : (0 : ℚ) < 2 ^ e := by positivity
    cases hm : compare m k with
    | lt =>
      refine (compare_lt_iff_lt.mpr (mul_lt_mul_of_pos_right ?_ hunit)).symm
      exact_mod_cast compare_lt_iff_lt.mp hm
    | gt =>
      refine (compare_gt_iff_gt.mpr (mul_lt_mul_of_pos_right ?_ hunit)).symm
      exact_mod_cast compare_gt_iff_gt.mp hm
    | eq =>
      rw [compare_eq_iff_eq.mp hm]
      exact (compare_eq_iff_eq.mpr rfl).symm

/-- Changing the signs swaps the order. -/
theorem compare_neg (x y : ℚ) : compare (-x) (-y) = (compare x y).swap := by
  rcases lt_trichotomy x y with h | h | h
  · rw [compare_lt_iff_lt.mpr h, compare_gt_iff_gt.mpr (neg_lt_neg h)]; rfl
  · rw [compare_eq_iff_eq.mpr h, compare_eq_iff_eq.mpr (congrArg _ h)]; rfl
  · rw [compare_gt_iff_gt.mpr h, compare_lt_iff_lt.mpr (neg_lt_neg h)]; rfl

/-- Canonical values are compared as the numbers they stand for. -/
theorem compare_eq (ha : Canonical F a) (hb : Canonical F b) (hx : rational? a = some x) (hy : rational? b = some y) :
    a.compare b = some (compare x y) := by
  have hless {o : Option Ordering} {x y : ℚ} (h : x < y) (ho : o = some .lt) : o = some (compare x y) :=
    ho.trans (congrArg some (compare_lt_iff_lt.mpr h).symm)
  have hmore {o : Option Ordering} {x y : ℚ} (h : y < x) (ho : o = some .gt) : o = some (compare x y) :=
    ho.trans (congrArg some (compare_gt_iff_gt.mpr h).symm)
  rcases cases_of_rational? hx with ⟨s, rfl, rfl⟩ | ⟨s, m, e, hm, rfl, rfl⟩
  · rcases cases_of_rational? hy with ⟨s', rfl, rfl⟩ | ⟨s', m', e', hm', rfl, rfl⟩
    · exact congrArg some (compare_eq_iff_eq.mpr rfl).symm
    · cases s' with
      | positive => exact hless (signed_positive_pos hm' e') rfl
      | negative => exact hmore (signed_negative_neg hm' e') rfl
  · rcases cases_of_rational? hy with ⟨s', rfl, rfl⟩ | ⟨s', m', e', hm', rfl, rfl⟩
    · cases s with
      | positive => exact hmore (signed_positive_pos hm e) rfl
      | negative => exact hless (signed_negative_neg hm e) rfl
    · have hpos := signed_positive_pos hm e
      have hpos' := signed_positive_pos hm' e'
      have hneg := signed_negative_neg hm e
      have hneg' := signed_negative_neg hm' e'
      -- with unlike signs the negative one is less; with like ones the magnitudes decide
      cases s <;> cases s'
      · rw [signed, signed, compare_neg, ← compare_mantissas ha hb]
        rfl
      · exact hless (hneg.trans hpos') rfl
      · exact hmore (hneg'.trans hpos) rfl
      · rw [signed, signed, ← compare_mantissas ha hb]
        rfl

end Rounding
end GuidedDecoding
