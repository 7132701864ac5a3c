import GuidedDecoding.Number.Width
import Mathlib

/-!
# Rounding to the nearest number of a format

An operation works out its result exactly, up to what the accuracy of its mantissa tells (`Tells`), and rounds it
once. Were there no greatest number, the numbers of a format would be the multiples of the powers of two from the
least one on, with mantissas that are not too long (`Grid`). What comes out is one that is nearest to the exact
result (`rounds_roundWithAccuracy`), in canonical form. So a bound on the grid is kept (`Nearest.le`, `Nearest.ge`),
and what is on the grid is not changed (`Nearest.eq`).
-/

namespace GuidedDecoding

open Float.Model (Format UnpackedFloat totalExponent)
open Float.Model.UnpackedFloat (Sign Accuracy ExtendedMantissa)

/-- The rational number that an exact value is, if it is one. -/
def rational? : UnpackedFloat → Option ℚ
  | .zero _ => some 0
  | .finite .positive mantissa exponent _ => some (mantissa * 2 ^ exponent)
  | .finite .negative mantissa exponent _ => some (-(mantissa * 2 ^ exponent))
  | _ => none

/-- The number of a sign and a magnitude. -/
def signed (s : Sign) (q : ℚ) : ℚ :=
  match s with
  | .positive => q
  | .negative => -q

namespace Rounding

variable {F : Format} {s : Sign} {m n : ℕ} {e t : ℤ} {acc : Accuracy} {em : ExtendedMantissa} {q v x y lo hi : ℚ}
  {u : UnpackedFloat}

theorem rational?_finite {h : 0 < m} : rational? (.finite s m e h) = some (signed s (m * 2 ^ e)) := by
  cases s <;> rfl

/-! ### The numbers of a format -/

theorem mantissaBits_eq (F : Format) : F.mantissaBits = F.mantissaBitsWithoutImplicit + 1 := Nat.add_comm ..

/-- The numbers of a format, were there no greatest one. -/
def Grid (F : Format) (q : ℚ) : Prop :=
  ∃ (n e : ℤ), |n| < 2 ^ F.mantissaBits ∧ F.minExponent ≤ e ∧ q = n * 2 ^ e

/-- The grid lies on both sides of zero alike. -/
theorem Grid.signed (s : Sign) (h : Grid F q) : Grid F (signed s q) := by
  obtain ⟨n, e, hn, he, rfl⟩ := h
  cases s with
  | positive => exact ⟨n, e, hn, he, rfl⟩
  | negative => exact ⟨-n, e, by rwa [abs_neg], he, by rw [Int.cast_neg, neg_mul]; rfl⟩

theorem grid_zero (F : Format) : Grid F 0 :=
  ⟨0, F.minExponent, by positivity, le_rfl, by simp⟩

/-- A number of the grid to which none of the grid is nearer. -/
structure Nearest (F : Format) (q v : ℚ) : Prop where
  grid : Grid F v
  le_abs : ∀ x, Grid F x → |v - q| ≤ |x - q|

/-- On the grid the nearest number is the number itself. -/
theorem Nearest.eq (h : Nearest F q v) (hq : Grid F q) : v = q := by
  have hzero := h.le_abs q hq
  rwa [sub_self, abs_zero, abs_nonpos_iff, sub_eq_zero] at hzero

theorem nearest_self (hq : Grid F q) : Nearest F q q :=
  ⟨hq, fun x _ => by rw [sub_self, abs_zero]; exact abs_nonneg _⟩

/-- What is below a number of the grid is not rounded beyond it. -/
theorem Nearest.le (h : Nearest F q v) (hhi : Grid F hi) (hq : q ≤ hi) : v ≤ hi := by
  by_contra! hlt
  have hnear := h.le_abs hi hhi
  rw [abs_of_nonneg (by linarith), abs_of_nonneg (by linarith)] at hnear
  linarith

/-- A nearest number is not below a number of the grid that is not above. -/
theorem Nearest.ge (h : Nearest F q v) (hlo : Grid F lo) (hq : lo ≤ q) : lo ≤ v := by
  by_contra! hlt
  have hnear := h.le_abs lo hlo
  rw [abs_of_nonpos (by linarith), abs_of_nonpos (by linarith)] at hnear
  linarith

/-- Nearest on the one side of zero is nearest on the other. -/
theorem Nearest.signed (s : Sign) (h : Nearest F q v) : Nearest F (signed s q) (signed s v) := by
  cases s with
  | positive => exact h
  | negative =>
    refine ⟨h.grid.signed .negative, fun x hx => ?_⟩
    have hnear := h.le_abs (-x) (hx.signed .negative)
    have hflip (a b : ℚ) : |-a - b| = |a - -b| := by rw [← abs_neg, neg_sub, sub_neg_eq_add, sub_neg_eq_add, add_comm]
    show |-v - -q| ≤ |x - -q|
    rwa [hflip, neg_neg, ← hflip]

/-! ### Units of the last place -/

/-- The unit of the last place of a magnitude. -/
structure Ulp (F : Format) (t : ℤ) (q : ℚ) : Prop where
  min_le : F.minExponent ≤ t
  lt : q < 2 ^ F.mantissaBits * 2 ^ t
  ge : t = F.minExponent ∨ 2 ^ F.mantissaBitsWithoutImplicit * 2 ^ t ≤ q

theorem ulp_of_mantissa (hlt : m < 2 ^ F.mantissaBits) (ht : F.minExponent ≤ t)
    (hfull : t = F.minExponent ∨ 2 ^ F.mantissaBitsWithoutImplicit ≤ m) : Ulp F t (m * 2 ^ t) := by
  refine ⟨ht, ?_, hfull.imp_right fun hle => ?_⟩
  · have hcast : (m : ℚ) < 2 ^ F.mantissaBits := by exact_mod_cast hlt
    gcongr
  · have hcast : (2 : ℚ) ^ F.mantissaBitsWithoutImplicit ≤ m := by exact_mod_cast hle
    gcongr

/-- Numbers of a lower unit are below the full ones of a higher unit. -/
theorem full_le (F : Format) (h : e < t) :
    (2 : ℚ) ^ F.mantissaBits * 2 ^ e ≤ 2 ^ F.mantissaBitsWithoutImplicit * 2 ^ t := by
  rw [mantissaBits_eq, pow_succ, mul_assoc, mul_comm 2, ← zpow_add_one₀ two_ne_zero]
  gcongr
  · exact one_le_two
  · exact h

/-- A whole number that is not farther away than one half is a nearest one. -/
theorem abs_sub_le_of_half {n : ℤ} (j : ℤ) (h : |(n : ℚ) - y| ≤ 1 / 2) : |(n : ℚ) - y| ≤ |(j : ℚ) - y| := by
  by_cases hj : j = n
  · rw [hj]
  · have hone : (1 : ℚ) ≤ |(j : ℚ) - n| := by exact_mod_cast Int.one_le_abs (sub_ne_zero.mpr hj)
    have htriangle := abs_sub_le (j : ℚ) y n
    rw [abs_sub_comm y] at htriangle
    linarith

/-- What a mantissa can be, and one more, is on the grid. -/
theorem grid_of_le (hn : n ≤ 2 ^ F.mantissaBits) (ht : F.minExponent ≤ t) : Grid F (n * 2 ^ t) := by
  rcases hn.lt_or_eq with hlt | rfl
  · exact ⟨n, t, by rw [Nat.abs_cast]; exact_mod_cast hlt, ht, rfl⟩
  · -- The mantissa is one bit too long, but it is a power of two.
    refine ⟨2 ^ F.mantissaBitsWithoutImplicit, t + 1, ?_, by omega, ?_⟩
    · rw [abs_of_nonneg (by positivity), mantissaBits_eq]
      exact pow_lt_pow_right₀ one_lt_two (Nat.lt_succ_self _)
    · rw [zpow_add_one₀ two_ne_zero, mantissaBits_eq]
      push_cast
      ring

/-- A magnitude in units of its last place, rounded to a whole number. -/
theorem Ulp.mantissa (h : Ulp F t q) (hn : |(n : ℚ) - q / 2 ^ t| ≤ 1 / 2) :
    n ≤ 2 ^ F.mantissaBits ∧ (t = F.minExponent ∨ 2 ^ F.mantissaBitsWithoutImplicit ≤ n) := by
  have hunit : (0 : ℚ) < 2 ^ t := by positivity
  obtain ⟨hlow, hhigh⟩ := abs_le.mp hn
  have hlt := (div_lt_iff₀ hunit).mpr h.lt
  constructor
  · have hbound : (n : ℚ) < 2 ^ F.mantissaBits + 1 := by linarith
    exact Nat.le_of_lt_succ (by exact_mod_cast hbound)
  · refine h.ge.imp_right fun hge => ?_
    have hle := (le_div_iff₀ hunit).mpr hge
    have hbound : (2 : ℚ) ^ F.mantissaBitsWithoutImplicit < n + 1 := by linarith
    exact Nat.le_of_lt_succ (by exact_mod_cast hbound)

/-- The nearest multiple of the unit of the last place is a nearest number. -/
theorem Ulp.nearest (h : Ulp F t q) (hn : |(n : ℚ) - q / 2 ^ t| ≤ 1 / 2) : Nearest F q (n * 2 ^ t) := by
  have hunit : (0 : ℚ) < 2 ^ t := by positivity
  have hscale (x : ℚ) : |x * 2 ^ t - q| = |x - q / 2 ^ t| * 2 ^ t := by
    rw [← abs_of_pos hunit, ← abs_mul, abs_of_pos hunit, sub_mul, div_mul_cancel₀ _ hunit.ne']
  have hmultiple (j : ℤ) : |(n * 2 ^ t : ℚ) - q| ≤ |(j * 2 ^ t : ℚ) - q| := by
    rw [hscale, hscale]
    exact mul_le_mul_of_nonneg_right (abs_sub_le_of_half j hn) hunit.le
  refine ⟨grid_of_le (h.mantissa hn).1 h.min_le, ?_⟩
  · rintro x ⟨k, f, hk, hf, rfl⟩
    by_cases hft : t ≤ f
    · -- The other number is a multiple of the unit too.
      obtain ⟨d, rfl⟩ := Int.le.dest hft
      have hx : (k * 2 ^ (t + (d : ℤ)) : ℚ) = ((k * 2 ^ d : ℤ) : ℚ) * 2 ^ t := by
        rw [zpow_add₀ two_ne_zero, zpow_natCast]
        push_cast
        ring
      rw [hx]
      exact hmultiple _
    · -- The other number is below the least mantissa of full length, which is not above `q`.
      have hfull := h.ge.resolve_left (by omega)
      have hpower := full_le F (not_le.mp hft)
      have hx : (k * 2 ^ f : ℚ) ≤ 2 ^ F.mantissaBits * 2 ^ f := by
        have hle : (k : ℚ) ≤ 2 ^ F.mantissaBits := by exact_mod_cast (le_abs_self k).trans hk.le
        gcongr
      have hleast := hmultiple (2 ^ F.mantissaBitsWithoutImplicit)
      push_cast at hleast
      rw [abs_of_nonpos (sub_nonpos.mpr hfull)] at hleast
      rw [abs_of_nonpos (sub_nonpos.mpr (hx.trans (hpower.trans hfull)))]
      linarith

/-! ### Residual bits -/

/-- What an accuracy tells about a number that is cut off to a mantissa. -/
def Tells (acc : Accuracy) (m : ℕ) (x : ℚ) : Prop :=
  match acc with
  | .exact => x = m
  | .inexact .lt => m < x ∧ x < m + 1 / 2
  | .inexact .eq => x = m + 1 / 2
  | .inexact .gt => m + 1 / 2 < x ∧ x < m + 1

/-- A number that is cut off lies in the unit above its mantissa. -/
theorem Tells.bounds (h : Tells acc m x) : m ≤ x ∧ x < m + 1 := by
  unfold Tells at h
  split at h <;> constructor <;> linarith

/-- Rounding moves it by half a unit at most. -/
theorem Tells.half (h : Tells acc m x) : |(acc.roundToNearestEven m : ℚ) - x| ≤ 1 / 2 := by
  unfold Tells at h
  rw [abs_le]
  split at h
  · exact ⟨by simp only [Accuracy.roundToNearestEven]; linarith, by simp only [Accuracy.roundToNearestEven]; linarith⟩
  · exact ⟨by simp only [Accuracy.roundToNearestEven]; linarith, by simp only [Accuracy.roundToNearestEven]; linarith⟩
  · simp only [Accuracy.roundToNearestEven]
    rcases Nat.mod_two_eq_zero_or_one m with hm | hm <;> rw [hm] <;> push_cast <;> constructor <;> linarith
  · simp only [Accuracy.roundToNearestEven]
    push_cast
    constructor <;> linarith

/-- What a mantissa and its residual bits tell about a number. -/
def Represents (em : ExtendedMantissa) (x : ℚ) : Prop := Tells em.accuracy em.mantissa x

theorem represents_ofMantissaAndAccuracy (h : Tells acc m x) :
    Represents (.ofMantissaAndAccuracy m acc) x := by
  cases acc with
  | exact => exact h
  | inexact o => cases o <;> exact h

theorem Represents.half (h : Represents em x) : |(em.roundedMantissa : ℚ) - x| ≤ 1 / 2 := Tells.half h

/-- Shifting the mantissa by a bit halves the number, and loses nothing that rounding needs. -/
theorem Represents.shiftRightOne (h : Represents em x) : Represents em.shiftRightOne (x / 2) := by
  obtain ⟨m, r, s⟩ := em
  obtain ⟨k, rfl | rfl⟩ := m.even_or_odd'
  · cases r <;> cases s <;>
      simp [Represents, Tells, ExtendedMantissa.shiftRightOne, ExtendedMantissa.accuracy] at h ⊢
    all_goals first | constructor <;> linarith | linarith
  · have hhalf : (2 * k + 1) / 2 = k := by omega
    cases r <;> cases s <;>
      simp [Represents, Tells, ExtendedMantissa.shiftRightOne, ExtendedMantissa.accuracy, hhalf] at h ⊢
    all_goals first | constructor <;> linarith | linarith

/-- So does any shift. -/
theorem Represents.shiftRight (h : Represents em x) (k : ℕ) : Represents (em >>> k) (x / 2 ^ k) := by
  show Represents (k.repeat ExtendedMantissa.shiftRightOne em) _
  induction k with
  | zero => rwa [pow_zero, div_one]
  | succ k ih =>
    rw [pow_succ, ← div_div]
    exact ih.shiftRightOne

/-- Shifted to a higher exponent, a mantissa tells the same in other units. -/
theorem represents_shiftToExponent (h : Tells acc m x) (he : e ≤ t) :
    Represents (UnpackedFloat.shiftToExponent m e acc t).1 (x * 2 ^ e / 2 ^ t) ∧
      (UnpackedFloat.shiftToExponent m e acc t).2 = t := by
  obtain ⟨k, rfl⟩ := Int.le.dest he
  have hk : (e + k - e).toNat = k := by omega
  have hx : x * 2 ^ e / 2 ^ (e + (k : ℤ)) = x / 2 ^ k := by
    rw [zpow_add₀ two_ne_zero, zpow_natCast]
    field_simp
  rw [UnpackedFloat.shiftToExponent, hk, hx]
  exact ⟨(represents_ofMantissaAndAccuracy h).shiftRight k, rfl⟩

/-- The exponent to which a mantissa is shifted is that of the unit of its last place. -/
theorem Tells.ulp (h : Tells acc m x) (he : e ≤ F.targetExponent (totalExponent m e)) :
    Ulp F (F.targetExponent (totalExponent m e)) (x * 2 ^ e) := by
  obtain ⟨hle, hlt⟩ := h.bounds
  have htwo : (0 : ℚ) < 2 ^ e := by positivity
  generalize ht : F.targetExponent (totalExponent m e) = t at he
  rw [Format.targetExponent, totalExponent] at ht
  have hp := mantissaBits_eq F
  refine ⟨by omega, ?_, ?_⟩
  -- from the number of digits of the mantissa both bounds follow, the lower one above the least exponent
  · have hlog : x < 2 ^ ((m.log2 : ℤ) + 1) := by
      have hm : (m : ℚ) + 1 ≤ 2 ^ (m.log2 + 1) := by exact_mod_cast Nat.lt_log2_self
      exact_mod_cast hlt.trans_le hm
    calc x * 2 ^ e < 2 ^ ((m.log2 : ℤ) + 1) * 2 ^ e := by gcongr
      _ = 2 ^ ((m.log2 : ℤ) + 1 + e) := (zpow_add₀ two_ne_zero _ _).symm
      _ ≤ 2 ^ ((F.mantissaBits : ℤ) + t) := zpow_le_zpow_right₀ one_le_two (by omega)
      _ = 2 ^ F.mantissaBits * 2 ^ t := by rw [zpow_add₀ two_ne_zero, zpow_natCast]
  · by_cases hmin : t = F.minExponent
    · exact Or.inl hmin
    · refine Or.inr ?_
      have hne : m ≠ 0 := by
        rintro rfl
        have := F.hm
        rw [Nat.log2_zero] at ht
        omega
      have hlog : (2 : ℚ) ^ (m.log2 : ℤ) ≤ x := by
        have hm : (2 : ℚ) ^ m.log2 ≤ m := by exact_mod_cast Nat.log2_self_le hne
        exact_mod_cast hm.trans hle
      calc (2 : ℚ) ^ F.mantissaBitsWithoutImplicit * 2 ^ t
          = 2 ^ ((F.mantissaBitsWithoutImplicit : ℤ) + t) := by rw [zpow_add₀ two_ne_zero, zpow_natCast]
        _ = 2 ^ ((m.log2 : ℤ) + e) := by congr 1; omega
        _ = 2 ^ (m.log2 : ℤ) * 2 ^ e := zpow_add₀ two_ne_zero _ _
        _ ≤ x * 2 ^ e := by gcongr

/-! ### Canonical values -/

/-- A finite value is written with the unit of its last place. -/
def Canonical (F : Format) : UnpackedFloat → Prop
  | .finite _ m e _ => Ulp F e (m * 2 ^ e)
  | _ => True

/-- The value is a canonical one, nearest to a number. -/
def Rounds (F : Format) (q : ℚ) (u : UnpackedFloat) : Prop :=
  Canonical F u ∧ ∃ v, rational? u = some v ∧ Nearest F q v

/-- A rounded mantissa is shifted at most once more, and nothing is lost. -/
theorem shiftToTargetExponent_rounded (hn : n ≤ 2 ^ F.mantissaBits) (ht : F.minExponent ≤ t)
    (hfull : t = F.minExponent ∨ 2 ^ F.mantissaBitsWithoutImplicit ≤ n) :
    ∃ (k : ℕ) (f : ℤ), (UnpackedFloat.shiftToTargetExponent F n t .exact).1.mantissa = k ∧
      (UnpackedFloat.shiftToTargetExponent F n t .exact).2 = f ∧ (k * 2 ^ f : ℚ) = n * 2 ^ t ∧ Ulp F f (k * 2 ^ f) := by
  have hp := mantissaBits_eq F
  rw [UnpackedFloat.shiftToTargetExponent, UnpackedFloat.shiftToExponent]
  -- only a mantissa that has carried is shifted, and then by one bit that is not set
  rcases hn.lt_or_eq with hlt | rfl
  · have hlog : n.log2 < F.mantissaBits := by
      by_cases hzero : n = 0
      · rw [hzero, Nat.log2_zero]
        omega
      · exact (Nat.log2_lt hzero).mpr hlt
    have hstays : (F.targetExponent (totalExponent n t) - t).toNat = 0 := by
      rw [Format.targetExponent, totalExponent]
      omega
    rw [hstays]
    exact ⟨n, t, rfl, by simp, rfl, ulp_of_mantissa hlt ht hfull⟩
  · have hcarries : (F.targetExponent (totalExponent (2 ^ F.mantissaBits) t) - t).toNat = 1 := by
      rw [Format.targetExponent, totalExponent, Nat.log2_two_pow]
      omega
    have hhalf : 2 ^ F.mantissaBits / 2 = 2 ^ F.mantissaBitsWithoutImplicit := by
      rw [hp, pow_succ, Nat.mul_div_cancel _ two_pos]
    rw [hcarries]
    have hlt : 2 ^ F.mantissaBitsWithoutImplicit < 2 ^ F.mantissaBits :=
      Nat.pow_lt_pow_right one_lt_two (hp ▸ Nat.lt_succ_self _)
    refine ⟨2 ^ F.mantissaBitsWithoutImplicit, t + 1, hhalf, rfl, ?_, ulp_of_mantissa hlt (by omega) (Or.inr le_rfl)⟩
    rw [zpow_add_one₀ two_ne_zero, hp]
    push_cast
    ring

/-- Rounding a mantissa that is not too short for its accuracy gives a nearest number. -/
theorem rounds_roundWithAccuracy (s : Sign) (h : Tells acc m x) (he : e ≤ F.targetExponent (totalExponent m e)) :
    Rounds F (signed s (x * 2 ^ e)) (UnpackedFloat.roundWithAccuracy F s m e acc) := by
  have hulp := h.ulp he
  obtain ⟨hrep, hexp⟩ := represents_shiftToExponent h he
  rw [← UnpackedFloat.shiftToTargetExponent] at hrep hexp
  rw [UnpackedFloat.roundWithAccuracy]
  generalize UnpackedFloat.shiftToTargetExponent F m e acc = shifted at hrep hexp
  obtain ⟨em, t⟩ := shifted
  obtain rfl : t = F.targetExponent (totalExponent m e) := hexp
  have hhalf : |(em.roundedMantissa : ℚ) - x * 2 ^ e / 2 ^ F.targetExponent (totalExponent m e)| ≤ 1 / 2 := hrep.half
  have hnear := hulp.nearest hhalf
  obtain ⟨hmantissa, hfull⟩ := hulp.mantissa hhalf
  obtain ⟨k, f, hk, hf, hsame, hcanonical⟩ := shiftToTargetExponent_rounded hmantissa hulp.min_le hfull
  rw [← hsame] at hnear
  dsimp only
  simp only [hk, hf]
  split
  · next hzero =>
    rw [hzero, Nat.cast_zero, zero_mul] at hnear
    have hsigned := hnear.signed s
    have hnone : signed s 0 = 0 := by cases s <;> simp [GuidedDecoding.signed]
    exact ⟨trivial, 0, rfl, hnone ▸ hsigned⟩
  · exact ⟨hcanonical, _, rational?_finite, hnear.signed s⟩

end Rounding
end GuidedDecoding
