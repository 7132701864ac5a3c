import GuidedDecoding.Number.Exponential
import Mathlib

/-!
# Special singles

A single has an exact value, and two singles with one exact value are the same (`exactValue_inj`), so there is
one single that is not a number. What arithmetic does with an infinity, and with what is not a number, is read
off the exact values.

Negative infinity is below every other number (`minusInfinity_lt_iff`). Scaled it either stays what it is or
becomes something that is no score (`minusInfinity_scaled`), and the exponential of what it exceeds another
single by is nothing (`exponential_minusInfinity_sub`).
-/

namespace GuidedDecoding
namespace Single

open Float.Model (UnpackedFloat)
open Float.Model.UnpackedFloat (Sign)

def minusInfinity : Float32 := Float32.ofBits 0xFF800000

def plusInfinity : Float32 := Float32.ofBits 0x7F800000

def exactValue (x : Float32) : UnpackedFloat := x.toModel.unpack

def ofValue (v : UnpackedFloat) : Float32 := .ofModel (.pack v)

variable {x y : Float32}

/-- A single is known by its value, and what is no number by that. -/
theorem exactValue_inj : exactValue x = exactValue y ↔ x = y := by
  obtain ⟨⟨a, ha⟩⟩ := x
  obtain ⟨⟨b, hb⟩⟩ := y
  simp only [exactValue, Float32.Model.unpack, UnpackedFloat.unpack_inj_of_valid ha hb,
    Float32.ofModel.injEq, Float32.Model.mk.injEq]
  exact UInt32.toBitVec_inj

theorem isNaN_iff : x.isNaN = true ↔ exactValue x = .notANumber := UnpackedFloat.isNaN_iff

theorem lt_iff : x < y ↔ (exactValue x).compare (exactValue y) = some .lt := by
  show decide ((exactValue x).lt (exactValue y) = true) = true ↔ _
  rw [decide_eq_true_iff, UnpackedFloat.lt, beq_iff_eq]

@[simp] theorem exactValue_zero : exactValue 0 = .zero .positive := rfl

@[simp] theorem exactValue_minusInfinity : exactValue minusInfinity = .infinity .negative := rfl

@[simp] theorem exactValue_ofValue_infinity (s : Sign) : exactValue (ofValue (.infinity s)) = .infinity s := by
  cases s <;> rfl

@[simp] theorem exactValue_ofValue_zero (s : Sign) : exactValue (ofValue (.zero s)) = .zero s := by
  cases s <;> rfl

@[simp] theorem exactValue_ofValue_notANumber : exactValue (ofValue .notANumber) = .notANumber := rfl

/-! ### Order -/

/-- Nothing is below negative infinity. -/
theorem not_lt_minusInfinity : ¬ x < minusInfinity := by
  rw [lt_iff, exactValue_minusInfinity]
  cases exactValue x with
  | infinity s => cases s <;> decide
  | notANumber => simp [UnpackedFloat.compare]
  | zero s => simp [UnpackedFloat.compare]
  | finite s m e hm => cases s <;> simp [UnpackedFloat.compare]

/-- Negative infinity is below every other number. -/
theorem minusInfinity_lt_iff : minusInfinity < x ↔ ¬ (x.isNaN = true ∨ x = minusInfinity) := by
  rw [lt_iff, isNaN_iff, ← exactValue_inj, exactValue_minusInfinity]
  cases exactValue x with
  | infinity s =>
    cases s with
    | negative => simp [UnpackedFloat.compare]
    | positive => simp [UnpackedFloat.compare]; decide
  | notANumber => simp [UnpackedFloat.compare]
  | zero s => simp [UnpackedFloat.compare]
  | finite s m e hm => simp [UnpackedFloat.compare]

/-! ### Arithmetic -/

theorem exactValue_minusInfinity_mul (x : Float32) :
    exactValue (minusInfinity * x) = .notANumber ∨ ∃ s, exactValue (minusInfinity * x) = .infinity s := by
  show exactValue (ofValue (.mul .binary32 (exactValue minusInfinity) (exactValue x))) = _ ∨
    ∃ s, exactValue (ofValue (.mul .binary32 (exactValue minusInfinity) (exactValue x))) = _
  rw [exactValue_minusInfinity]
  cases exactValue x with
  | infinity s => simp [UnpackedFloat.mul]
  | notANumber => simp [UnpackedFloat.mul]
  | zero s => simp [UnpackedFloat.mul]
  | finite s m e hm => simp [UnpackedFloat.mul]

/-- Adding zero to an infinity, or to what is not a number, changes nothing. -/
theorem exactValue_add_zero (h : exactValue x = .notANumber ∨ ∃ s, exactValue x = .infinity s) :
    exactValue (x + 0) = exactValue x := by
  show exactValue (ofValue (.add .binary32 (exactValue x) (exactValue 0))) = _
  rcases h with h | ⟨s, h⟩
  · rw [h]
    rfl
  · rw [h]
    exact exactValue_ofValue_infinity s

/-- Scaled by any factor, negative infinity stays what it is, or it becomes positive infinity or no number. -/
theorem minusInfinity_scaled (factor : Float32) :
    (minusInfinity * factor + 0).isNaN = true ∨ minusInfinity * factor + 0 = plusInfinity ∨
      minusInfinity * factor + 0 = minusInfinity := by
  have hmul := exactValue_minusInfinity_mul factor
  rw [isNaN_iff, ← exactValue_inj, ← exactValue_inj, exactValue_add_zero hmul]
  rcases hmul with hnan | ⟨s, hs⟩
  · exact Or.inl hnan
  · rw [hs]
    cases s with
    | negative => exact Or.inr (Or.inr rfl)
    | positive => exact Or.inr (Or.inl rfl)

/-- Less any single, negative infinity stays what it is or is no number. -/
theorem minusInfinity_sub (x : Float32) :
    (minusInfinity - x).isNaN = true ∨ minusInfinity - x = minusInfinity := by
  rw [isNaN_iff, ← exactValue_inj]
  show exactValue (ofValue (.sub .binary32 (exactValue minusInfinity) (exactValue x))) = _ ∨
    exactValue (ofValue (.sub .binary32 (exactValue minusInfinity) (exactValue x))) = _
  rw [exactValue_minusInfinity]
  cases exactValue x with
  | infinity s =>
    cases s with
    | negative => exact Or.inl rfl
    | positive => exact Or.inr rfl
  | notANumber => simp [UnpackedFloat.sub]
  | zero s => simp [UnpackedFloat.sub]
  | finite s m e hm => simp [UnpackedFloat.sub]

/-- What is no number has no exponential that is one. -/
theorem exponential_of_isNaN (h : x.isNaN = true) : exponential x = x := by
  rw [exponential, if_pos h]

/-- The exponential of what negative infinity exceeds a single by is zero, or no number. -/
theorem exponential_minusInfinity_sub (x : Float32) :
    exponential (minusInfinity - x) = 0 ∨ (exponential (minusInfinity - x)).isNaN = true := by
  rcases minusInfinity_sub x with hnan | hsame
  · rw [exponential_of_isNaN hnan]
    exact Or.inr hnan
  · rw [hsame]
    exact Or.inl (by decide)

/-- A share of nothing is not positive. -/
theorem not_zero_lt_div (h : x = 0 ∨ x.isNaN = true) : ¬ 0 < x / y := by
  rw [isNaN_iff] at h
  rw [lt_iff]
  show ¬ (exactValue 0).compare (exactValue (ofValue (.div .binary32 (exactValue x) (exactValue y)))) = _
  rcases h with rfl | h
  · rw [exactValue_zero]
    cases exactValue y with
    | infinity s => simp [UnpackedFloat.div, UnpackedFloat.compare]
    | notANumber => simp [UnpackedFloat.div, UnpackedFloat.compare]
    | zero s => simp [UnpackedFloat.div, UnpackedFloat.compare]
    | finite s m e hm => simp [UnpackedFloat.div, UnpackedFloat.compare]
  · rw [h]
    simp [UnpackedFloat.div, UnpackedFloat.compare]

end Single
end GuidedDecoding
