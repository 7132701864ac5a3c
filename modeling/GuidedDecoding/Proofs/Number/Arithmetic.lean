import GuidedDecoding.Proofs.Number.Rounding

/-!
# Arithmetic of canonical values

The sum, difference, product and quotient of canonical values are canonical values nearest to those of the rational
numbers (`rounds_add`, `rounds_sub`, `rounds_mul`, `rounds_div`). For a quotient it does not matter whether the operands
are canonical, since it is worked out to as many places as are needed (`divCore_spec`).
-/

namespace GuidedDecoding
namespace Rounding

open Float.Model (Format UnpackedFloat totalExponent)
open Float.Model.UnpackedFloat (Sign Accuracy ExtendedMantissa)

variable {F : Format} {s : Sign} {m n : ℕ} {e t : ℤ} {q v x y lo hi : ℚ} {a b u : UnpackedFloat}

/-! ### Canonical values -/

/-- A magnitude has one unit of the last place. -/
theorem Ulp.unique (h : Ulp F t q) (h' : Ulp F e q) : t = e := by
  have hle {t e : ℤ} (h : Ulp F t q) (h' : Ulp F e q) : t ≤ e := by
    by_contra! hlt
    have hfull := h.ge.resolve_left (h'.min_le.trans_lt hlt).ne'
    linarith [h'.lt, full_le F hlt]
  exact le_antisymm (hle h h') (hle h' h)

/-- A mantissa fits the format. -/
theorem Ulp.mantissa_lt (h : Ulp F e (m * 2 ^ e)) : m < 2 ^ F.mantissaBits := by
  have hlt := lt_of_mul_lt_mul_right h.lt (by positivity)
  exact_mod_cast hlt

/-- It is full, unless the exponent is the least one. -/
theorem Ulp.mantissa_ge (h : Ulp F e (m * 2 ^ e)) : e = F.minExponent ∨ 2 ^ F.mantissaBitsWithoutImplicit ≤ m := by
  refine h.ge.imp_right fun hge => ?_
  have hle := le_of_mul_le_mul_right hge (by positivity)
  exact_mod_cast hle

/-- A value that is a number is a zero or a finite one. -/
theorem cases_of_rational? (h : rational? u = some q) :
    (∃ s, u = .zero s ∧ q = 0) ∨
      ∃ (s : Sign) (m : ℕ) (e : ℤ) (hm : 0 < m), u = .finite s m e hm ∧ q = signed s (m * 2 ^ e) := by
  cases u with
  | infinity s => cases h
  | notANumber => cases h
  | zero s =>
    cases h
    exact Or.inl ⟨s, rfl, rfl⟩
  | finite s m e hm =>
    rw [rational?_finite, Option.some.injEq] at h
    exact Or.inr ⟨s, m, e, hm, rfl, h.symm⟩

/-- A value of the format is on its grid. -/
theorem Canonical.grid (h : Canonical F u) (hu : rational? u = some q) : Grid F q := by
  rcases cases_of_rational? hu with ⟨s, rfl, rfl⟩ | ⟨s, m, e, hm, rfl, rfl⟩
  · exact grid_zero F
  · exact (grid_of_le (Ulp.mantissa_lt h).le (Ulp.min_le h)).signed s

/-- What is on the grid already stands for itself. -/
theorem Canonical.rounds (h : Canonical F u) (hu : rational? u = some q) : Rounds F q u :=
  ⟨h, q, hu, nearest_self (h.grid hu)⟩

theorem rounds_zero (F : Format) (s : Sign) : Rounds F 0 (.zero s) :=
  Canonical.rounds trivial rfl

/-! ### Rounding whole mantissas -/

theorem shiftLeft_mul (m d : ℕ) (e : ℤ) : ((m <<< d : ℕ) * 2 ^ (e - d) : ℚ) = m * 2 ^ e := by
  rw [Nat.shiftLeft_eq, zpow_sub₀ two_ne_zero, zpow_natCast]
  push_cast
  field_simp

theorem log2_shiftLeft (hm : 0 < m) (d : ℕ) : (m <<< d).log2 = m.log2 + d := by
  have hpos : 0 < m * 2 ^ d := by positivity
  rw [Nat.shiftLeft_eq, Nat.log2_eq_iff hpos.ne', pow_add, pow_add, pow_add]
  refine ⟨Nat.mul_le_mul_right _ (Nat.log2_self_le hm.ne'), ?_⟩
  calc m * 2 ^ d < 2 ^ (m.log2 + 1) * 2 ^ d := by gcongr; exact Nat.lt_log2_self
    _ = 2 ^ m.log2 * 2 ^ d * 2 ^ 1 := by ring

/-- The rounding of a magnitude is nearest to it. -/
theorem rounds_round (F : Format) (s : Sign) (hm : 0 < m) (e : ℤ) :
    Rounds F (signed s (m * 2 ^ e)) (UnpackedFloat.round F s m e) := by
  rw [UnpackedFloat.round, UnpackedFloat.decreaseExponent]
  dsimp only
  generalize hd : (e - F.targetExponent (totalExponent m e)).toNat = d
  have htotal : totalExponent (m <<< d) (e - d) = totalExponent m e := by
    rw [totalExponent, totalExponent, log2_shiftLeft hm]
    push_cast
    ring
  rw [← shiftLeft_mul m d e]
  exact rounds_roundWithAccuracy s rfl (by rw [htotal]; omega)

theorem rounds_normalize (F : Format) (i e : ℤ) (zeroSign : Sign) :
    Rounds F (i * 2 ^ e) (UnpackedFloat.normalize F i e zeroSign) := by
  rw [UnpackedFloat.normalize]
  cases hi : compare i 0 with
  | lt =>
    have hneg : i < 0 := Int.compare_eq_lt.mp hi
    obtain ⟨k, rfl⟩ := Int.exists_eq_neg_ofNat hneg.le
    have hrounds := rounds_round F .negative (m := k) (by omega) e
    rw [neg_neg, Int.toNat_natCast]
    rw [signed] at hrounds
    push_cast
    rwa [neg_mul]
  | eq =>
    obtain rfl : i = 0 := Int.compare_eq_eq.mp hi
    rw [Int.cast_zero, zero_mul]
    exact rounds_zero F zeroSign
  | gt =>
    have hpos : 0 < i := Int.compare_eq_gt.mp hi
    obtain ⟨k, rfl⟩ := Int.eq_ofNat_of_zero_le hpos.le
    have hrounds := rounds_round F .positive (m := k) (by omega) e
    rw [Int.toNat_natCast]
    exact_mod_cast hrounds

/-! ### Operations -/

theorem apply_mul (s : Sign) (m : ℕ) (q : ℚ) : ((s.apply m : ℤ) * q : ℚ) = signed s (m * q) := by
  cases s with
  | positive => exact_mod_cast rfl
  | negative =>
    rw [Sign.apply, signed]
    push_cast
    rw [neg_mul]

/-- Written with a lower exponent, a mantissa stands for the same number. -/
theorem decreaseExponent_mul (m : ℕ) (h : t ≤ e) :
    ((UnpackedFloat.decreaseExponent m e t).1 * 2 ^ t : ℚ) = m * 2 ^ e := by
  have hvalue := shiftLeft_mul m (e - t).toNat e
  rwa [Int.toNat_of_nonneg (by omega), sub_sub_cancel] at hvalue

/-- A sum is rounded once. -/
theorem rounds_add (ha : Canonical F a) (hb : Canonical F b) (hx : rational? a = some x) (hy : rational? b = some y) :
    Rounds F (x + y) (UnpackedFloat.add F a b) := by
  rcases cases_of_rational? hx with ⟨s, rfl, rfl⟩ | ⟨s, m, e, hm, rfl, rfl⟩
  · rw [zero_add]
    rcases cases_of_rational? hy with ⟨s', rfl, rfl⟩ | ⟨s', m', e', hm', rfl, rfl⟩
    · rw [UnpackedFloat.add]
      split <;> exact rounds_zero F _
    · exact hb.rounds hy
  · rcases cases_of_rational? hy with ⟨s', rfl, rfl⟩ | ⟨s', m', e', hm', rfl, rfl⟩
    · rw [add_zero]
      exact ha.rounds hx
    · have hrounds := rounds_normalize F
        (s.apply (UnpackedFloat.decreaseExponent m e (min e e')).1 +
          s'.apply (UnpackedFloat.decreaseExponent m' e' (min e e')).1) (min e e') .positive
      rw [Int.cast_add, add_mul, apply_mul, apply_mul, decreaseExponent_mul m (min_le_left e e'),
        decreaseExponent_mul m' (min_le_right e e')] at hrounds
      exact hrounds

/-- Subtracting is adding the negative. -/
theorem sub_eq_add (a b : UnpackedFloat) : UnpackedFloat.sub F a b = UnpackedFloat.add F a b.neg := by
  cases b with
  | infinity s => cases a <;> rfl
  | notANumber => cases a <;> rfl
  | zero s => cases a <;> rfl
  | finite s m e hm =>
    cases a with
    | infinity s' => rfl
    | notANumber => rfl
    | zero s' => rfl
    | finite s' m' e' hm' =>
      have hneg (k : ℕ) : (-s).apply k = -s.apply k := by
        cases s with
        | negative => exact (neg_neg _).symm
        | positive => rfl
      simp only [UnpackedFloat.sub, UnpackedFloat.add, UnpackedFloat.neg, hneg, Int.sub_eq_add_neg]

theorem rational?_neg (h : rational? u = some q) : rational? u.neg = some (-q) := by
  rcases cases_of_rational? h with ⟨s, rfl, rfl⟩ | ⟨s, m, e, hm, rfl, rfl⟩
  · rw [neg_zero]
    rfl
  · cases s with
    | negative => rw [signed, neg_neg]; rfl
    | positive => rfl

theorem Canonical.neg (h : Canonical F u) : Canonical F u.neg := by
  cases u <;> exact h

theorem rounds_sub (ha : Canonical F a) (hb : Canonical F b) (hx : rational? a = some x) (hy : rational? b = some y) :
    Rounds F (x - y) (UnpackedFloat.sub F a b) := by
  rw [sub_eq_add, sub_eq_add_neg]
  exact rounds_add ha hb.neg hx (rational?_neg hy)

theorem signed_mul (s s' : Sign) (q q' : ℚ) : signed s q * signed s' q' = signed (s * s') (q * q') := by
  cases s <;> cases s'
  · exact neg_mul_neg q q'
  · exact neg_mul q q'
  · exact mul_neg q q'
  · rfl

theorem signed_div (s s' : Sign) (q q' : ℚ) : signed s q / signed s' q' = signed (s / s') (q / q') := by
  cases s <;> cases s'
  · exact neg_div_neg_eq q q'
  · exact neg_div q' q
  · exact div_neg q
  · rfl

theorem minExponent_nonpos (F : Format) : F.minExponent ≤ 0 := by
  have hp := mantissaBits_eq F
  have hm := F.hm
  have hpower : (1 : ℤ) ≤ 2 ^ (F.exponentBits - 1) := one_le_pow₀ one_le_two
  rw [Format.minExponent]
  omega

theorem rounds_mul (ha : Canonical F a) (hb : Canonical F b) (hx : rational? a = some x) (hy : rational? b = some y) :
    Rounds F (x * y) (UnpackedFloat.mul F a b) := by
  rcases cases_of_rational? hx with ⟨s, rfl, rfl⟩ | ⟨s, m, e, hm, rfl, rfl⟩
  · rw [zero_mul]
    rcases cases_of_rational? hy with ⟨s', rfl, rfl⟩ | ⟨s', m', e', hm', rfl, rfl⟩
    · exact rounds_zero F _
    · exact rounds_zero F _
  · rcases cases_of_rational? hy with ⟨s', rfl, rfl⟩ | ⟨s', m', e', hm', rfl, rfl⟩
    · rw [mul_zero]
      exact rounds_zero F _
    -- The product of the mantissas is exact, and long enough unless both numbers are at the least exponent.
    · have hproduct : (m * 2 ^ e * (m' * 2 ^ e') : ℚ) = (m * m' : ℕ) * 2 ^ (e + e') := by
        rw [zpow_add₀ two_ne_zero]
        push_cast
        ring
      rw [signed_mul, hproduct]
      refine rounds_roundWithAccuracy (s * s') rfl ?_
      rw [Format.targetExponent, totalExponent]
      have hpos : m * m' ≠ 0 := (Nat.mul_pos hm hm').ne'
      have hp := mantissaBits_eq F
      have hmin := minExponent_nonpos F
      have hlong (h : 2 ^ F.mantissaBitsWithoutImplicit ≤ m * m') :
          F.mantissaBitsWithoutImplicit ≤ (m * m').log2 := (Nat.le_log2 hpos).mpr h
      rcases Ulp.mantissa_ge ha with he | hfull
      · rcases Ulp.mantissa_ge hb with he' | hfull'
        · omega
        · have := hlong (hfull'.trans (Nat.le_mul_of_pos_left m' hm))
          omega
      · have := hlong (hfull.trans (Nat.le_mul_of_pos_right m hm'))
        omega

/-- A remainder tells how far a quotient is above its whole part. -/
theorem tells_accuracyOfFraction (n : ℕ) {d : ℕ} (hd : 0 < d) :
    Tells (UnpackedFloat.accuracyOfFraction (n % d) d) (n / d) (n / d) := by
  have hpos : (0 : ℚ) < d := by exact_mod_cast hd
  have hr : n % d < d := Nat.mod_lt n hd
  have hn : (n / d : ℚ) = (n / d : ℕ) + (n % d : ℕ) / d := by
    rw [eq_comm, eq_div_iff hpos.ne', add_mul, div_mul_cancel₀ _ hpos.ne']
    exact_mod_cast Nat.div_add_mod' n d
  rw [hn]
  -- what is cut off is the remainder over the divisor, below one
  generalize n % d = r at hr
  rw [UnpackedFloat.accuracyOfFraction]
  have hlt : (r / d : ℚ) < 1 := by
    rw [div_lt_one hpos]
    exact_mod_cast hr
  by_cases hzero : r = 0
  · rw [if_pos hzero, hzero, Nat.cast_zero, zero_div, add_zero]
    rfl
  · have hfrac : (0 : ℚ) < r / d := div_pos (by exact_mod_cast Nat.pos_of_ne_zero hzero) hpos
    rw [if_neg hzero]
    cases hhalf : compare (2 * r) d with
    | lt =>
      have : (r / d : ℚ) < 1 / 2 := by
        rw [div_lt_div_iff₀ hpos two_pos]
        exact_mod_cast (by have := Nat.compare_eq_lt.mp hhalf; omega : r * 2 < 1 * d)
      constructor <;> linarith
    | eq =>
      have : (r / d : ℚ) = 1 / 2 := by
        rw [div_eq_div_iff hpos.ne' two_ne_zero]
        exact_mod_cast (by have := Nat.compare_eq_eq.mp hhalf; omega : r * 2 = 1 * d)
      rw [this]
      rfl
    | gt =>
      have : (1 : ℚ) / 2 < r / d := by
        rw [div_lt_div_iff₀ two_pos hpos]
        exact_mod_cast (by have := Nat.compare_eq_gt.mp hhalf; omega : 1 * d < r * 2)
      constructor <;> linarith

/-- The quotient of two mantissas is worked out to enough places. -/
theorem divCore_spec {m' : ℕ} (hm : 0 < m) (e : ℤ) (hm' : 0 < m') (e' : ℤ) :
    ∃ k f acc z, UnpackedFloat.divCore F m e m' e' = (k, f, acc) ∧ Tells acc k z ∧
      (z * 2 ^ f : ℚ) = m * 2 ^ e / (m' * 2 ^ e') ∧ f ≤ F.targetExponent (totalExponent k f) := by
  rw [UnpackedFloat.divCore]
  generalize ht : min (e - e') (F.targetExponent (totalExponent m e - totalExponent m' e')) = t
  generalize hd : (e - e' - t).toNat = d
  refine ⟨_, _, _, _, rfl, tells_accuracyOfFraction _ hm', ?_, ?_⟩
  · have hvalue := shiftLeft_mul m d (e - e')
    rw [show e - e' - (d : ℤ) = t by omega, zpow_sub₀ two_ne_zero] at hvalue
    rw [div_mul_eq_mul_div, hvalue]
    field_simp
  · rw [Format.targetExponent, totalExponent, totalExponent] at ht
    rw [Format.targetExponent, totalExponent]
    have hp := mantissaBits_eq F
    -- either the exponent is the least one, or the quotient has enough digits to be rounded
    by_cases hmin : t ≤ F.minExponent
    · exact hmin.trans (le_max_right _ _)
    · have hlong : m'.log2 + F.mantissaBits ≤ m.log2 + d := by omega
      have hfull : 2 ^ F.mantissaBitsWithoutImplicit ≤ (m <<< d) / m' := by
        rw [Nat.le_div_iff_mul_le hm']
        calc 2 ^ F.mantissaBitsWithoutImplicit * m'
            ≤ 2 ^ F.mantissaBitsWithoutImplicit * 2 ^ (m'.log2 + 1) := Nat.mul_le_mul_left _ Nat.lt_log2_self.le
          _ = 2 ^ (m'.log2 + F.mantissaBits) := by rw [hp]; ring
          _ ≤ 2 ^ (m <<< d).log2 := Nat.pow_le_pow_right two_pos (by rwa [log2_shiftLeft hm])
          _ ≤ m <<< d := Nat.log2_self_le (Nat.shiftLeft_pos_iff.mpr hm).ne'
      have hlog := (Nat.le_log2 (Nat.pos_of_ne_zero fun h => by simp [h] at hfull).ne').mpr hfull
      omega

theorem rounds_div (hx : rational? a = some x) (hy : rational? b = some y)
    (hne : y ≠ 0) : Rounds F (x / y) (UnpackedFloat.div F a b) := by
  rcases cases_of_rational? hy with ⟨s', rfl, rfl⟩ | ⟨s', m', e', hm', rfl, rfl⟩
  · exact absurd rfl hne
  · rcases cases_of_rational? hx with ⟨s, rfl, rfl⟩ | ⟨s, m, e, hm, rfl, rfl⟩
    · rw [zero_div]
      exact rounds_zero F _
    · obtain ⟨k, f, acc, z, hcore, htells, hz, hf⟩ := divCore_spec (F := F) hm e hm' e'
      rw [signed_div, ← hz, UnpackedFloat.div, hcore]
      exact rounds_roundWithAccuracy (s / s') htells hf

end Rounding
end GuidedDecoding
