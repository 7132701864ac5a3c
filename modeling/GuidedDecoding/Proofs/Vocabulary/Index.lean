import GuidedDecoding.Proofs.Json.Numeral
import GuidedDecoding.Proofs.Vocabulary.Metadata

/-!
# Numbers as indices

An index is the natural number that a number of a document stands for (`Json.Number.value?`), and no other number is
taken for one (`index_of_number`), however it is written. There is one exception: the double `2 ^ 64`, one more than the
greatest index, becomes the greatest index (`index_of_two_pow`).
-/

namespace GuidedDecoding

open Json (Number Value parse)

/-- The number that a number of a document stands for, if it is one. -/
def Json.Number.value? : Number → Option ℚ
  | .integer n => some n
  | .real x => rational? (Float.Model.ofBits x.toBits).unpack

/-- Of the numbers that a document can hold, integers are below `2 ^ 64`. -/
theorem lt_of_parse_integer {text : String} {k : ℤ} (h : parse text = .ok (.number (.integer k))) : k < 2 ^ 64 :=
  ((Json.eq_integer_iff h k).mp rfl).2.2

theorem index_of_integer {k : ℤ} (n : ℕ) :
    vocabularyIndex? (.number (.integer k)) = some n ↔ Number.value? (.integer k) = some (n : ℚ) := by
  rw [vocabularyIndex?_eq_some_iff, Number.value?, Option.some.injEq]
  constructor
  · rintro ⟨⟩
    exact Int.cast_natCast n
  · intro h
    obtain rfl : k = n := by exact_mod_cast h
    exact .integer n

/-- The index of a double is its value, if that is a natural number up to `2 ^ 64`, of which the last is taken for the
one below it. -/
theorem index_of_real {x : Float} (n : ℕ) :
    vocabularyIndex? (.number (.real x)) = some n ↔
      (Number.value? (.real x) = some (n : ℚ) ∧ n ≤ 2 ^ 64 - 1) ∨
        (Number.value? (.real x) = some (2 ^ 64) ∧ n = 2 ^ 64 - 1) := by
  rw [vocabularyIndex?_eq_some_iff]
  constructor
  · intro h
    -- `2 ^ 64` is the one double that is taken for a lesser number
    cases h with
    | @real _ m hm hle =>
      rcases Nat.lt_or_ge m (2 ^ 64) with hlt | hge
      · rw [min_eq_left (by omega)]
        exact Or.inl ⟨hm, by omega⟩
      · obtain rfl : m = 2 ^ 64 := le_antisymm hle hge
        refine Or.inr ⟨?_, rfl⟩
        rw [Number.value?, hm]
        norm_num
  · rintro (⟨hx, hle⟩ | ⟨hx, rfl⟩)
    · have hmin : min n (2 ^ 64 - 1) = n := min_eq_left hle
      rw [← hmin]
      exact .real hx (by omega)
    · have hmin : min (2 ^ 64) (2 ^ 64 - 1) = 2 ^ 64 - 1 := rfl
      rw [← hmin]
      refine .real ?_ le_rfl
      rw [Number.value?] at hx
      rw [hx]
      norm_num

/-- A document that is a number stands for an integer exactly if it is written as one that fits 64 bits, signed or
unsigned. Its index is the number that it stands for, if that is a natural number below `2 ^ 64`, and there is no other
index, but that the double `2 ^ 64` has the greatest one. -/
theorem index_of_number {text : String} {x : Number} (h : parse text = .ok (.number x)) :
    (∀ k : ℤ, x = .integer k ↔ Json.IntegerText text k ∧ -2 ^ 63 ≤ k ∧ k < 2 ^ 64) ∧
      ∀ n : ℕ, vocabularyIndex? (.number x) = some n ↔
        (x.value? = some (n : ℚ) ∧ n ≤ 2 ^ 64 - 1) ∨ (x.value? = some (2 ^ 64) ∧ n = 2 ^ 64 - 1) := by
  refine ⟨Json.eq_integer_iff h, fun n => ?_⟩
  cases x with
  | real x => exact index_of_real n
  | integer k =>
    have hk := lt_of_parse_integer h
    rw [index_of_integer]
    constructor
    · intro hvalue
      have hkn : (k : ℚ) = n := Option.some.inj hvalue
      have hn : k = n := by exact_mod_cast hkn
      exact Or.inl ⟨hvalue, by omega⟩
    · rintro (⟨hvalue, -⟩ | ⟨hvalue, -⟩)
      · exact hvalue
      · -- There is no such integer.
        have hk' : (k : ℚ) = 2 ^ 64 := Option.some.inj hvalue
        have : k = 2 ^ 64 := by exact_mod_cast hk'
        omega

/-- The greatest index, written with a blank behind it. -/
theorem index_of_number_greatest :
    parse "18446744073709551615 " = .ok (.number (.integer (2 ^ 64 - 1))) ∧
      vocabularyIndex? (.number (.integer (2 ^ 64 - 1))) = some (2 ^ 64 - 1) := by
  have h : parse "18446744073709551615 " = .ok (.number (.integer (2 ^ 64 - 1))) := rfl
  refine ⟨h, ((index_of_number h).2 (2 ^ 64 - 1)).mpr (Or.inl ⟨?_, le_rfl⟩)⟩
  rw [Number.value?]
  norm_num

/-! ### One more than the greatest index -/

def doubleTwoPow : Float := Float.ofBits 0x43F0000000000000

/-- What the scanner has read of `18446744073709551616`. -/
def scannedTwoPow : Json.NumeralScan :=
  ⟨.whole, false, [6, 1, 6, 1, 5, 5, 9, 0, 7, 3, 7, 0, 4, 4, 7, 6, 4, 4, 8, 1], none, false, none⟩

theorem number?_scannedTwoPow : scannedTwoPow.numeral.number? = some (.real doubleTwoPow) := by
  have hinteger : scannedTwoPow.numeral.integer? = none := by decide +kernel
  have habsorb : Json.Numeral.absorb 0 scannedTwoPow.numeral.whole = (1844674407370955161, 19, 1) := by decide +kernel
  have hproduct : Float.ofNat 1844674407370955161 * Json.Numeral.powerOfTen 1 = doubleTwoPow := by decide +kernel
  have hfinite : doubleTwoPow.isInf = false := by decide +kernel
  have hscale : Json.Numeral.scale (Float.ofNat 1844674407370955161) 1 = some doubleTwoPow := by
    rw [Json.Numeral.scale]
    simp [Json.Numeral.powerMax, hproduct, hfinite]
  have hreal : scannedTwoPow.numeral.real? = some doubleTwoPow := by
    unfold Json.Numeral.real?
    rw [habsorb]
    simp only [Json.NumeralScan.numeral, scannedTwoPow]
    show (Json.Numeral.scale (Float.ofNat 1844674407370955161) 1).map _ = _
    rw [hscale]
    rfl
  rw [Json.Numeral.number?, hinteger, hreal]
  rfl

/-- The first number that is no index is taken for the one below it. -/
theorem index_of_two_pow :
    ∃ x, parse "18446744073709551616" = .ok (.number x) ∧ x.value? = some (2 ^ 64) ∧
      vocabularyIndex? (.number x) = some (2 ^ 64 - 1) := by
  have htoken : scannedTwoPow.token true = .number (.real doubleTwoPow) := by
    have hcomplete : scannedTwoPow.complete = true := rfl
    rw [Json.NumeralScan.token, if_pos hcomplete, number?_scannedTwoPow]
  have htokens : Json.tokens "18446744073709551616".toList = [scannedTwoPow.token true] := rfl
  refine ⟨.real doubleTwoPow, ?_, ?_, by decide +kernel⟩
  · rw [parse, htokens, htoken]
    rfl
  · have hvalue : naturalValue? doubleTwoPow = some (2 ^ 64) := by decide +kernel
    rw [Number.value?, exactNatural?_eq_some_iff.mp hvalue]
    norm_num

end GuidedDecoding
