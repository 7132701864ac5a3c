import GuidedDecoding.Proofs.Number.Single
import GuidedDecoding.Proofs.Number.Storage

/-!
# Numbers in an interval

An operation on singles or doubles that gives a number between two of the format, if it is worked out exactly, gives one
between them when it is rounded (`Rounds.between`). So intervals go through sums, differences and products of doubles,
and through both conversions.

What does not exceed a finite single, less that one, is not positive, or it is negative infinity (`Single.sub_of_le`).
-/

namespace GuidedDecoding

open Float.Model (Format UnpackedFloat)
open Float.Model.UnpackedFloat (Sign)
open Rounding

variable {F : Format} {q lo hi a b c d p : ℚ} {u : UnpackedFloat}

def Between (lo hi : ℚ) (u : UnpackedFloat) : Prop := ∃ q, rational? u = some q ∧ lo ≤ q ∧ q ≤ hi

namespace Rounding

/-- Rounding stays within bounds that are numbers of the format. -/
theorem Rounds.between (h : Rounds F q u) (hlo : Representable F lo) (hhi : Representable F hi) (hq : lo ≤ q)
    (hq' : q ≤ hi) : Between lo hi (stored F u) := by
  rw [h.stored_eq hlo hhi hq hq']
  obtain ⟨-, v, hv, hnear⟩ := h
  exact ⟨v, hv, hnear.ge hlo.grid hq, hnear.le hhi.grid hq'⟩

theorem rounds_roundTo (h : rational? u = some q) : Rounds F q (roundTo F u) := by
  rcases cases_of_rational? h with ⟨s, rfl, rfl⟩ | ⟨s, m, e, hm, rfl, rfl⟩
  · exact rounds_zero F s
  · exact rounds_round F s hm e

end Rounding

namespace Single

variable {x y : Float32}

theorem canonical_exactValue (x : Float32) : Canonical .binary32 (exactValue x) := canonical_unpack _

theorem lt_iff_of_rational (hx : rational? (exactValue x) = some p)
    (hy : rational? (exactValue y) = some q) : x < y ↔ p < q := by
  rw [lt_iff, compare_eq (canonical_exactValue x) (canonical_exactValue y) hx hy, Option.some.injEq,
    compare_lt_iff_lt]

/-- A single is finite when it is a rational number. -/
theorem isFinite_iff : x.isFinite = true ↔ ∃ q, rational? (exactValue x) = some q := by
  show (exactValue x).isFinite = true ↔ _
  cases exactValue x with
  | infinity s => simp [UnpackedFloat.isFinite, rational?]
  | notANumber => simp [UnpackedFloat.isFinite, rational?]
  | zero s => simp [UnpackedFloat.isFinite, rational?]
  | finite s m e hm => simp [UnpackedFloat.isFinite, rational?_finite]

/-- A single that is a number and no infinity is finite. -/
theorem isFinite_of_ne (hnan : x.isNaN = false) (hplus : x ≠ plusInfinity) (hminus : x ≠ minusInfinity) :
    x.isFinite = true := by
  rw [← Bool.not_eq_true, isNaN_iff] at hnan
  rw [Ne, ← exactValue_inj] at hplus hminus
  show (exactValue x).isFinite = true
  cases hx : exactValue x with
  | infinity s =>
    cases s with
    | negative => exact absurd hx hminus
    | positive => exact absurd hx hplus
  | notANumber => exact absurd hx hnan
  | zero s => rfl
  | finite s m e hm => rfl

theorem minusInfinity_lt_of_isFinite (h : x.isFinite = true) : minusInfinity < x := by
  obtain ⟨q, hq⟩ := isFinite_iff.mp h
  rw [minusInfinity_lt_iff]
  rintro (hnan | rfl)
  · rw [isNaN_iff.mp hnan] at hq
    cases hq
  · cases hq

/-- Less a finite single, negative infinity stays what it is. -/
theorem minusInfinity_sub_finite (hx : rational? (exactValue x) = some q) : minusInfinity - x = minusInfinity := by
  rw [← exactValue_inj]
  show exactValue (ofValue (.sub .binary32 (exactValue minusInfinity) (exactValue x))) = _
  rcases cases_of_rational? hx with ⟨s, hs, -⟩ | ⟨s, m, e, hm, hs, -⟩ <;> rw [hs] <;> rfl

theorem sub_self_finite (hx : rational? (exactValue x) = some q) : x - x = 0 := by
  rw [← exactValue_inj]
  show stored .binary32 (.sub .binary32 (exactValue x) (exactValue x)) = .zero .positive
  rcases cases_of_rational? hx with ⟨s, hs, -⟩ | ⟨s, m, e, hm, hs, -⟩
  · rw [hs]
    cases s <;> rfl
  · rw [hs, UnpackedFloat.sub]
    dsimp only
    rw [Int.sub_self]
    exact stored_zero _ _

/-- What does not exceed a finite single, less that one, is not positive. -/
theorem sub_of_le (hx : rational? (exactValue x) = some p) (hy : rational? (exactValue y) = some q) (hle : p ≤ q) :
    x - y = minusInfinity ∨ ∃ v ≤ 0, rational? (exactValue (x - y)) = some v := by
  have hrounds := rounds_sub (canonical_exactValue x) (canonical_exactValue y) hx hy
  have hvalue : exactValue (x - y) = stored .binary32 (.sub .binary32 (exactValue x) (exactValue y)) := rfl
  rcases hrounds.stored_of_nonpos (by linarith) with hover | hstays
  · refine Or.inl (exactValue_inj.mp ?_)
    rw [hvalue, hover, exactValue_minusInfinity]
  · obtain ⟨-, v, hv, hnear⟩ := hrounds
    exact Or.inr ⟨v, hnear.le (grid_zero _) (by linarith), by rw [hvalue, hstays, hv]⟩

theorem representable_int (n : ℤ) (hq : q = n) (hn : |n| < 2 ^ 24) : Representable .binary32 q :=
  ⟨n, 0, hn, by decide, by decide, by rw [hq, zpow_zero, mul_one]⟩

end Single

namespace Double

variable {x y : Float}

def exactValue (x : Float) : UnpackedFloat := x.toModel.unpack

theorem canonical_exactValue (x : Float) : Canonical .binary64 (exactValue x) := canonical_unpack _

theorem exactValue_widen (x : Float32) :
    exactValue (widen x) = stored .binary64 (roundTo .binary64 (Single.exactValue x)) := by
  have hx : (Float32.Model.ofBits x.toBits).unpack = Single.exactValue x :=
    congrArg Single.exactValue (Float32.ofBits_toBits x)
  rw [widen, hx]
  have hbits (v : UnpackedFloat) : Float.ofBits (Float.Model.pack v).toBits = .ofModel (.pack v) :=
    Float.ofBits_toBits (.ofModel (.pack v))
  rw [hbits]
  rfl

theorem exactValue_narrow (x : Float) :
    Single.exactValue (narrow x) = stored .binary32 (roundTo .binary32 (exactValue x)) := by
  have hx : (Float.Model.ofBits x.toBits).unpack = exactValue x :=
    congrArg exactValue (Float.ofBits_toBits x)
  rw [narrow, hx]
  have hbits (v : UnpackedFloat) : Float32.ofBits (Float32.Model.pack v).toBits = .ofModel (.pack v) :=
    Float32.ofBits_toBits (.ofModel (.pack v))
  rw [hbits]
  rfl

/-- A sum stays within the sum of the bounds, rounded outward. -/
theorem between_add (hx : Between a b (exactValue x)) (hy : Between c d (exactValue y))
    (hlo : Representable .binary64 lo) (hhi : Representable .binary64 hi) (h : lo ≤ a + c) (h' : b + d ≤ hi) :
    Between lo hi (exactValue (x + y)) := by
  obtain ⟨p, hp, hap, hpb⟩ := hx
  obtain ⟨q, hq, hcq, hqd⟩ := hy
  exact (rounds_add (canonical_exactValue x) (canonical_exactValue y) hp hq).between hlo hhi
    (by linarith) (by linarith)

theorem between_sub (hx : Between a b (exactValue x)) (hy : Between c d (exactValue y))
    (hlo : Representable .binary64 lo) (hhi : Representable .binary64 hi) (h : lo ≤ a - d) (h' : b - c ≤ hi) :
    Between lo hi (exactValue (x - y)) := by
  obtain ⟨p, hp, hap, hpb⟩ := hx
  obtain ⟨q, hq, hcq, hqd⟩ := hy
  exact (rounds_sub (canonical_exactValue x) (canonical_exactValue y) hp hq).between hlo hhi
    (by linarith) (by linarith)

/-- A product stays within bounds of all products. -/
theorem between_mul (hx : Between a b (exactValue x)) (hy : Between c d (exactValue y))
    (hlo : Representable .binary64 lo) (hhi : Representable .binary64 hi)
    (h : ∀ p q, a ≤ p → p ≤ b → c ≤ q → q ≤ d → lo ≤ p * q ∧ p * q ≤ hi) :
    Between lo hi (exactValue (x * y)) := by
  obtain ⟨p, hp, hap, hpb⟩ := hx
  obtain ⟨q, hq, hcq, hqd⟩ := hy
  obtain ⟨hlow, hhigh⟩ := h p q hap hpb hcq hqd
  exact (rounds_mul (canonical_exactValue x) (canonical_exactValue y) hp hq).between hlo hhi hlow hhigh

/-- Widening is exact on the bounds. -/
theorem between_widen {x : Float32} (hx : Between lo hi (Single.exactValue x)) (hlo : Representable .binary64 lo)
    (hhi : Representable .binary64 hi) : Between lo hi (exactValue (widen x)) := by
  obtain ⟨p, hp, hlow, hhigh⟩ := hx
  rw [exactValue_widen]
  exact (rounds_roundTo hp).between hlo hhi hlow hhigh

/-- Narrowing stays within bounds that singles can be. -/
theorem between_narrow {x : Float} (hx : Between lo hi (exactValue x)) (hlo : Representable .binary32 lo)
    (hhi : Representable .binary32 hi) : Between lo hi (Single.exactValue (narrow x)) := by
  obtain ⟨p, hp, hlow, hhigh⟩ := hx
  rw [exactValue_narrow]
  exact (rounds_roundTo hp).between hlo hhi hlow hhigh

theorem representable_div (n : ℤ) (k : ℕ) (hq : q = n / 2 ^ k) (hn : |n| < 2 ^ 53) (hk : k ≤ 1000) :
    Representable .binary64 q := by
  have hmin : Format.binary64.minExponent = -1074 := rfl
  have hbias : Format.binary64.exponentBias = 1023 := rfl
  refine ⟨n, -k, hn, by omega, by rw [hbias]; push_cast; omega, ?_⟩
  rw [hq, zpow_neg, zpow_natCast, div_eq_mul_inv]

theorem representable_int (n : ℤ) (hq : q = n) (hn : |n| < 2 ^ 53) : Representable .binary64 q :=
  representable_div n 0 (by rw [hq, pow_zero, div_one]) hn (Nat.zero_le _)

/-- From the bits of a whole double its mantissa can be read off. -/
theorem toBits_of_exactValue {m : ℕ} {hm : 0 < m} (h : exactValue x = .finite .positive m 0 hm)
    (hge : 2 ^ 52 ≤ m) (hlt : m < 2 ^ 53) : x.toBits.toNat = 1074 * 2 ^ 52 + m := by
  have hpacked : UnpackedFloat.pack .binary64 (exactValue x) = x.toBits.toBitVec :=
    UnpackedFloat.pack_unpack_of_valid x.toModel.valid
  have hlog : m.log2 = 52 := (Nat.log2_eq_iff hm.ne').mpr ⟨hge, hlt⟩
  have hbiased :
      ((0 : ℤ) + Format.binary64.exponentBias + Format.binary64.mantissaBitsWithoutImplicit).toNat = 1075 := rfl
  have hnormal : m.log2 + 1 = Format.binary64.mantissaBits := by rw [hlog]; rfl
  rw [h, UnpackedFloat.pack, hbiased, if_neg (by decide), if_pos hnormal, UnpackedFloat.packComponents] at hpacked
  rw [← UInt64.toNat_toBitVec, ← hpacked, toNat_append, toNat_append, BitVec.toNat_ofNat, BitVec.toNat_ofNat]
  show (0 * 2 ^ 11 + 1075 % 2 ^ 11) * 2 ^ 52 + m % 2 ^ 52 = 1074 * 2 ^ 52 + m
  omega

/-- From `2 ^ 52` on, but below `2 ^ 53`, a double is a whole number and has it in its low bits. -/
theorem exists_nat_of_rational (h : rational? (exactValue x) = some q) (hge : 2 ^ 52 ≤ q) (hlt : q < 2 ^ 53) :
    ∃ m : ℕ, q = m ∧ x.toBits.toNat = 1074 * 2 ^ 52 + m := by
  have hpos : 0 < q := lt_of_lt_of_le (by positivity) hge
  rcases cases_of_rational? h with ⟨s, -, hzero⟩ | ⟨s, m, e, hm, hvalue, hq⟩
  · exact absurd hzero hpos.ne'
  · cases s with
    | negative => exact absurd (hq ▸ signed_negative_neg hm e) hpos.not_gt
    | positive =>
      have hcanonical := canonical_exactValue x
      rw [hvalue] at hcanonical
      have hunit : Ulp .binary64 0 (m * 2 ^ e) := by
        change q = m * 2 ^ e at hq
        rw [← hq]
        refine ⟨by decide, ?_, Or.inr ?_⟩
        · rwa [zpow_zero, mul_one]
        · rwa [zpow_zero, mul_one]
      obtain rfl : e = 0 := Ulp.unique hcanonical hunit
      change q = m * 2 ^ (0 : ℤ) at hq
      rw [zpow_zero, mul_one] at hq
      rw [hq] at hge hlt
      exact ⟨m, hq, toBits_of_exactValue hvalue (by exact_mod_cast hge) (by exact_mod_cast hlt)⟩

end Double
end GuidedDecoding
