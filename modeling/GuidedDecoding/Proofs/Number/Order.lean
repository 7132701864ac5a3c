import GuidedDecoding.Proofs.Number.Interval

/-!
# The order of singles, and what is no number

Of two singles that are numbers, infinities included, one is not greater than the other (`not_le_iff`), and positive
infinity is the greatest (`lt_plusInfinity`). A finite single added to a number gives a number (`not_isNaN_add`), so a
sum of finite singles can be compared with any other. What is no number stays so in every operation, and spreads to a
sum (`isNaN_foldl_add`).

Singles that are finite are compared by their rational numbers (`le_iff_of_rational`), and unless it is zero there is
one single for such a number (`eq_of_rational`).
-/

namespace GuidedDecoding
namespace Single

open Float.Model (UnpackedFloat)
open Float.Model.UnpackedFloat (Sign)
open Rounding

variable {x y : Float32} {p q : ℚ} {u v : UnpackedFloat}

/-! ### Comparing -/

/-- Comparing the other way round swaps the answer. -/
theorem compare_swap (u v : UnpackedFloat) : v.compare u = (u.compare v).map Ordering.swap := by
  cases u with
  | notANumber => cases v <;> simp [UnpackedFloat.compare]
  | infinity s =>
    cases v with
    | infinity t => cases s <;> cases t <;> decide
    | notANumber | zero | finite => cases s <;> simp [UnpackedFloat.compare]
  | zero s =>
    cases v with
    | infinity t | finite t => cases t <;> simp [UnpackedFloat.compare]
    | notANumber | zero => simp [UnpackedFloat.compare]
  | finite s m e hm =>
    cases v with
    | infinity t => cases t <;> simp [UnpackedFloat.compare]
    | notANumber => simp [UnpackedFloat.compare]
    | zero => cases s <;> simp [UnpackedFloat.compare]
    | finite t n f hn =>
      have hswap : (compare f e).then (compare n m) = ((compare e f).then (compare m n)).swap := by
        rw [Ordering.swap_then, Int.compare_swap, Nat.compare_swap]
      cases s <;> cases t <;> simp [UnpackedFloat.compare, hswap]

/-- All but what is no number can be compared. -/
theorem exists_compare (hu : u ≠ .notANumber) (hv : v ≠ .notANumber) : ∃ o, u.compare v = some o := by
  cases u with
  | notANumber => exact absurd rfl hu
  | infinity s =>
    cases v with
    | notANumber => exact absurd rfl hv
    | infinity | zero | finite => cases s <;> simp [UnpackedFloat.compare]
  | zero s =>
    cases v with
    | notANumber => exact absurd rfl hv
    | infinity t | finite t => cases t <;> simp [UnpackedFloat.compare]
    | zero => simp [UnpackedFloat.compare]
  | finite s m e hm =>
    cases v with
    | notANumber => exact absurd rfl hv
    | infinity t | finite t => cases s <;> cases t <;> simp [UnpackedFloat.compare]
    | zero => cases s <;> simp [UnpackedFloat.compare]

theorem le_iff : x ≤ y ↔ ((exactValue x).compare (exactValue y)).any (·.isLE) = true := by
  show decide ((exactValue x).le (exactValue y) = true) = true ↔ _
  rw [decide_eq_true_iff, UnpackedFloat.le]

theorem not_isNaN_iff : x.isNaN = false ↔ exactValue x ≠ .notANumber := by
  rw [← Bool.not_eq_true, isNaN_iff]

/-- Of two numbers one is not greater than the other. -/
theorem not_le_iff (hx : x.isNaN = false) (hy : y.isNaN = false) : ¬ x ≤ y ↔ y < x := by
  obtain ⟨o, ho⟩ := exists_compare (not_isNaN_iff.mp hx) (not_isNaN_iff.mp hy)
  rw [le_iff, lt_iff, compare_swap (exactValue x) (exactValue y), ho]
  cases o <;> decide

/-- What can be compared is a number on both sides. -/
theorem not_isNaN_of_lt (h : x < y) : x.isNaN = false ∧ y.isNaN = false := by
  rw [lt_iff] at h
  rw [not_isNaN_iff, not_isNaN_iff]
  constructor
  · intro hx
    rw [hx] at h
    simp [UnpackedFloat.compare] at h
  · intro hy
    rw [hy] at h
    cases hx : exactValue x <;> simp [hx, UnpackedFloat.compare] at h

theorem exactValue_plusInfinity : exactValue plusInfinity = .infinity .positive := rfl

/-- Nothing is above positive infinity. -/
theorem not_plusInfinity_lt : ¬ plusInfinity < x := by
  rw [lt_iff, exactValue_plusInfinity]
  cases exactValue x with
  | infinity s => cases s <;> decide
  | notANumber => simp [UnpackedFloat.compare]
  | zero s => simp [UnpackedFloat.compare]
  | finite s m e hm => cases s <;> simp [UnpackedFloat.compare]

/-- Positive infinity is above every other number. -/
theorem lt_plusInfinity (hnan : x.isNaN = false) (hne : x ≠ plusInfinity) : x < plusInfinity := by
  rw [not_isNaN_iff] at hnan
  rw [Ne, ← exactValue_inj, exactValue_plusInfinity] at hne
  rw [lt_iff, exactValue_plusInfinity]
  cases hx : exactValue x with
  | infinity s =>
    cases s with
    | negative => decide
    | positive => exact absurd hx hne
  | notANumber => exact absurd hx hnan
  | zero s => rfl
  | finite s m e hm => cases s <;> rfl

/-- Finite singles are ordered as the numbers that they are. -/
theorem le_iff_of_rational (hx : rational? (exactValue x) = some p) (hy : rational? (exactValue y) = some q) :
    x ≤ y ↔ p ≤ q := by
  rw [le_iff, compare_eq (canonical_exactValue x) (canonical_exactValue y) hx hy, ← not_lt, ← compare_gt_iff_gt]
  cases compare p q <;> decide

/-- A rational number other than zero has one single. -/
theorem eq_of_rational (hx : rational? (exactValue x) = some q) (hy : rational? (exactValue y) = some q)
    (hq : q ≠ 0) : x = y := by
  rw [← exactValue_inj]
  have hcx := canonical_exactValue x
  have hcy := canonical_exactValue y
  rcases cases_of_rational? hx with ⟨s, -, hzero⟩ | ⟨s, m, e, hm, hs, hvalue⟩
  · exact absurd hzero hq
  rcases cases_of_rational? hy with ⟨t, -, hzero⟩ | ⟨t, n, f, hn, ht, hvalue'⟩
  · exact absurd hzero hq
  rw [hs] at hcx
  rw [ht] at hcy
  have hpos := signed_positive_pos hm e
  have hpos' := signed_positive_pos hn f
  -- the signs are those of the number, so only its magnitude is left to compare
  have hsame : s = t ∧ (m * 2 ^ e : ℚ) = n * 2 ^ f := by
    cases s <;> cases t <;> simp only [signed] at hvalue hvalue' hpos hpos' <;>
      first
        | exact ⟨rfl, by linarith⟩
        | linarith
  obtain ⟨rfl, hmagnitude⟩ := hsame
  have hunit : Ulp .binary32 f (m * 2 ^ e) := by
    rw [hmagnitude]
    exact hcy
  obtain rfl := Ulp.unique hcx hunit
  have hmantissa : m = n := by
    have hcast : (m : ℚ) = n := mul_right_cancel₀ (by positivity) hmagnitude
    exact_mod_cast hcast
  subst hmantissa
  rw [hs, ht]

/-! ### Sums of numbers -/

theorem stored_ne_notANumber (h : Rounds .binary32 q u) : stored .binary32 u ≠ .notANumber := by
  obtain ⟨hcanonical, v, hv, -⟩ := h
  rcases cases_of_rational? hv with ⟨s, rfl, -⟩ | ⟨s, m, e, hm, rfl, -⟩
  · simp [stored_zero]
  · rcases le_or_gt (e + Float.Model.Format.binary32.mantissaBitsWithoutImplicit)
      Float.Model.Format.binary32.exponentBias with he | he
    · simp [stored_finite hcanonical he]
    · simp [stored_overflow he]

/-- A number and a finite one have a sum. -/
theorem not_isNaN_add (hx : x.isNaN = false) (hy : y.isFinite = true) : (x + y).isNaN = false := by
  obtain ⟨q, hq⟩ := isFinite_iff.mp hy
  rw [not_isNaN_iff] at hx ⊢
  show stored .binary32 (.add .binary32 (exactValue x) (exactValue y)) ≠ _
  have hadds {p : ℚ} (hp : rational? (exactValue x) = some p) :
      stored .binary32 (.add .binary32 (exactValue x) (exactValue y)) ≠ .notANumber :=
    stored_ne_notANumber (rounds_add (canonical_exactValue x) (canonical_exactValue y) hp hq)
  cases hvalue : exactValue x with
  | notANumber => exact absurd hvalue hx
  | infinity s =>
    have hsum : UnpackedFloat.add .binary32 (.infinity s) (exactValue y) = .infinity s := by
      rcases cases_of_rational? hq with ⟨t, ht, -⟩ | ⟨t, m, e, hm, ht, -⟩ <;> rw [ht] <;> rfl
    rw [hsum, stored_infinity]
    simp
  | zero s =>
    rw [hvalue] at hadds
    exact hadds rfl
  | finite s m e hm =>
    rw [hvalue] at hadds
    exact hadds rational?_finite

/-! ### What is no number -/

theorem isNaN_add (h : x.isNaN = true ∨ y.isNaN = true) : (x + y).isNaN = true := by
  simp only [isNaN_iff] at h ⊢
  have hsum : UnpackedFloat.add .binary32 (exactValue x) (exactValue y) = .notANumber := by
    rcases h with h | h <;> rw [h]
    · rfl
    · cases exactValue x <;> rfl
  show exactValue (ofValue (.add .binary32 (exactValue x) (exactValue y))) = _
  rw [hsum, exactValue_ofValue_notANumber]

theorem isNaN_sub (h : x.isNaN = true ∨ y.isNaN = true) : (x - y).isNaN = true := by
  simp only [isNaN_iff] at h ⊢
  have hdifference : UnpackedFloat.sub .binary32 (exactValue x) (exactValue y) = .notANumber := by
    rcases h with h | h <;> rw [h]
    · rfl
    · cases exactValue x <;> rfl
  show exactValue (ofValue (.sub .binary32 (exactValue x) (exactValue y))) = _
  rw [hdifference, exactValue_ofValue_notANumber]

theorem isNaN_div (h : y.isNaN = true) : (x / y).isNaN = true := by
  rw [isNaN_iff] at h ⊢
  have hquotient : UnpackedFloat.div .binary32 (exactValue x) (exactValue y) = .notANumber := by
    rw [h]
    cases exactValue x <;> rfl
  show exactValue (ofValue (.div .binary32 (exactValue x) (exactValue y))) = _
  rw [hquotient, exactValue_ofValue_notANumber]

/-- What is not finite, less itself, is no number. -/
theorem isNaN_sub_self (h : x.isFinite = false) : (x - x).isNaN = true := by
  by_cases hnan : x.isNaN = true
  · exact isNaN_sub (Or.inl hnan)
  · by_cases hplus : x = plusInfinity
    · rw [hplus]
      decide
    · by_cases hminus : x = minusInfinity
      · rw [hminus]
        decide
      · rw [isFinite_of_ne (Bool.eq_false_iff.mpr hnan) hplus hminus] at h
        cases h

/-- A sum of which one part is no number is none. -/
theorem isNaN_foldl_add {weights : List Float32} (h : x.isNaN = true ∨ ∃ w ∈ weights, w.isNaN = true) :
    (weights.foldl (· + ·) x).isNaN = true := by
  induction weights generalizing x with
  | nil => simpa using h
  | cons w weights ih =>
    rw [List.foldl_cons]
    apply ih
    rcases h with h | ⟨v, hv, h⟩
    · exact Or.inl (isNaN_add (Or.inl h))
    · rcases List.mem_cons.mp hv with rfl | hv
      · exact Or.inl (isNaN_add (Or.inr h))
      · exact Or.inr ⟨v, hv, h⟩

end Single
end GuidedDecoding
