import GuidedDecoding.Proofs.Json.Members
import GuidedDecoding.Proofs.Number.Rounding
import GuidedDecoding.Vocabulary.Reconcile
import Mathlib

/-!
# What metadata name

An index is a number whose value is a natural number, however it is written (`Indexes`). The entries that are read
from a tokenizer are those that have an index and a surface: of an added token (`AddedToken.Defines`) and of the
vocabulary (`BaseNames`), where an object is read as what can be looked up in it and a list as what stands at each
position. Nothing else is an entry (`entry?_eq_some_iff`, `mem_baseEntries`), and of two surfaces that a vocabulary
names for one index the lesser is read first (`pairwise_baseEntries`).
-/

namespace GuidedDecoding

open Json (Value)
open Float.Model (UnpackedFloat)

/-! ### Numbers -/

/-- A fraction of a power of two is a natural number if its denominator divides it. -/
theorem natural_iff_of_neg {m n : Nat} {e : Int} (he : e < 0) :
    (m * 2 ^ e : ℚ) = n ↔ m % 2 ^ (-e).toNat = 0 ∧ m / 2 ^ (-e).toNat = n := by
  obtain ⟨k, rfl⟩ := Int.exists_eq_neg_ofNat he.le
  rw [neg_neg, Int.toNat_natCast, zpow_neg, zpow_natCast, mul_inv_eq_iff_eq_mul₀ (by positivity)]
  have hpos : 0 < 2 ^ k := by positivity
  norm_cast
  constructor
  · rintro rfl
    exact ⟨Nat.mul_mod_left n _, Nat.mul_div_cancel n hpos⟩
  · rintro ⟨hmod, rfl⟩
    exact (Nat.div_mul_cancel (Nat.dvd_of_mod_eq_zero hmod)).symm

/-- A natural number is told where the value is one. -/
theorem exactNatural?_eq_some_iff {u : UnpackedFloat} {n : Nat} :
    exactNatural? u = some n ↔ rational? u = some (n : ℚ) := by
  cases u with
  | infinity s => simp [exactNatural?, rational?]
  | notANumber => simp [exactNatural?, rational?]
  | zero s => simp [exactNatural?, rational?, eq_comm]
  | finite s m e hm =>
    cases s with
    | negative =>
      have hneg : (-(m * 2 ^ e) : ℚ) < 0 := by
        have : (0 : ℚ) < m := by exact_mod_cast hm
        simp only [Left.neg_neg_iff]
        positivity
      have hne : (-(m * 2 ^ e) : ℚ) ≠ n := (hneg.trans_le n.cast_nonneg).ne
      simp [exactNatural?, rational?, hne]
    | positive =>
      -- with a positive exponent the number is whole, and with a negative one its low bits decide
      by_cases he : 0 ≤ e
      · obtain ⟨k, rfl⟩ := Int.eq_ofNat_of_zero_le he
        simp only [exactNatural?, rational?, he, if_true, Option.some.injEq, Int.toNat_natCast, zpow_natCast,
          Nat.pow_eq]
        norm_cast
      · rw [rational?, Option.some.injEq, natural_iff_of_neg (not_le.mp he)]
        simp only [exactNatural?, he, if_false, Nat.pow_eq]
        split
        · next hmod => simp [hmod]
        · next hmod => simp [hmod]

/-- The value is a number with this natural value; of the doubles those up to `2 ^ 64` count, the last as the greatest
index. -/
inductive Indexes : Value → Nat → Prop
  | integer (i : Nat) : Indexes (.number (.integer i)) i
  | real {x : Float} {n : Nat} : rational? (Float.Model.ofBits x.toBits).unpack = some (n : ℚ) → n ≤ 2 ^ 64 →
      Indexes (.number (.real x)) (min n (2 ^ 64 - 1))

/-- The index of a value is the one that it indexes. -/
theorem vocabularyIndex?_eq_some_iff {v : Value} {i : Nat} : vocabularyIndex? v = some i ↔ Indexes v i := by
  fun_cases vocabularyIndex? v with
  | case1 n hn =>
    obtain ⟨k, rfl⟩ := Int.eq_ofNat_of_zero_le hn
    rw [Int.toNat_natCast, Option.some.injEq]
    constructor
    · rintro rfl
      exact .integer k
    · intro h
      cases h
      rfl
  | case2 n hn =>
    refine iff_of_false nofun fun h => ?_
    cases h
    exact hn i.cast_nonneg
  | case3 x =>
    rw [Option.bind_eq_some_iff]
    constructor
    · rintro ⟨n, hn, h⟩
      split at h
      · next hle =>
        cases h
        exact .real (exactNatural?_eq_some_iff.mp hn) hle
      · cases h
    · rintro (_ | ⟨hx, hle⟩)
      exact ⟨_, exactNatural?_eq_some_iff.mpr hx, if_pos hle⟩
  | case4 v hinteger hreal =>
    refine iff_of_false nofun fun h => ?_
    cases h with
    | integer i => exact hinteger _ rfl
    | real _ _ => exact hreal _ rfl

/-! ### Added tokens -/

/-- The added token has this index and this surface. -/
def AddedToken.Defines (a : AddedToken) (i : Nat) (s : String) : Prop :=
  (∃ v, a.id = some v ∧ Indexes v i) ∧ a.content = some (.text s)

theorem text?_eq_some_iff {v : Value} {s : String} : v.text? = some s ↔ v = .text s := by
  cases v <;> simp [Value.text?]

/-- An added token has an entry if it has an index and a surface. -/
theorem AddedToken.entry?_eq_some_iff {a : AddedToken} {i : Nat} {s : String} {special : Bool} :
    a.entry? = some (i, s, special) ↔ a.Defines i s ∧ special = a.special.getD false := by
  unfold entry? Defines
  simp only [Option.bind_eq_bind, Option.bind_eq_some_iff, vocabularyIndex?_eq_some_iff,
    text?_eq_some_iff, Option.pure_def, Option.some.injEq, Prod.mk.injEq]
  constructor
  · rintro ⟨i', hi, s', ⟨v, hv, rfl⟩, rfl, rfl, rfl⟩
    exact ⟨⟨hi, hv⟩, rfl⟩
  · rintro ⟨⟨hi, hv⟩, rfl⟩
    exact ⟨i, hi, s, ⟨_, hv, rfl⟩, rfl, rfl, rfl⟩

/-! ### Vocabularies -/

/-- The piece of a vocabulary that is a list: a surface, or a list that begins with one. -/
inductive Spells : Value → String → Prop
  | text (s : String) : Spells (.text s) s
  | array (s : String) (more : List Value) : Spells (.array (.text s :: more)) s

/-- A piece has a surface where it spells one. -/
theorem pieceSurface?_eq_some_iff {v : Value} {s : String} : pieceSurface? v = some s ↔ Spells v s := by
  constructor
  · intro h
    unfold pieceSurface? at h
    split at h
    · cases h
      exact .text _
    · cases h
      exact .array _ _
    · cases h
  · rintro (_ | _) <;> rfl

/-- A vocabulary names a surface for an index: in a list by the position, in an object by the value of the key. -/
inductive BaseNames : Option Value → Nat → String → Prop
  | piece {pieces : List Value} {i : Nat} {piece : Value} {s : String} :
      pieces[i]? = some piece → Spells piece s → BaseNames (some (.array pieces)) i s
  | key {members : List (String × Value)} {i : Nat} {v : Value} {s : String} :
      Value.member? s members = some v → Indexes v i → BaseNames (some (.object members)) i s

/-- The entries of a vocabulary are the names that it gives. -/
theorem mem_baseEntries {vocabulary : Option Value} {i : Nat} {s : String} :
    (i, s) ∈ baseEntries vocabulary ↔ BaseNames vocabulary i s := by
  unfold baseEntries
  -- an object names by its members and a list by its positions; nothing else names anything
  split
  · next members =>
    simp only [List.mem_filterMap, Prod.exists, Option.map_eq_some_iff, vocabularyIndex?_eq_some_iff, Prod.mk.injEq,
      Value.mem_sortMembers_iff]
    constructor
    · rintro ⟨_, v, hv, _, hi, rfl, rfl⟩
      exact .key hv hi
    · rintro ⟨⟩
      exact ⟨s, _, ‹_›, i, ‹_›, rfl, rfl⟩
  · next pieces =>
    simp only [List.mem_filterMap, Prod.exists, Option.map_eq_some_iff, pieceSurface?_eq_some_iff, Prod.mk.injEq,
      List.mem_zipIdx_iff_getElem?]
    constructor
    · rintro ⟨piece, _, hpiece, _, hs, rfl, rfl⟩
      exact .piece hpiece hs
    · rintro ⟨⟩
      exact ⟨_, i, ‹_›, s, ‹_›, rfl, rfl⟩
  · next hobject harray =>
    refine iff_of_false List.not_mem_nil ?_
    rintro (⟨⟩ | ⟨⟩)
    · exact harray _ rfl
    · exact hobject _ rfl

/-- Of two surfaces for one index the lesser is read first. -/
theorem pairwise_baseEntries (vocabulary : Option Value) :
    (baseEntries vocabulary).Pairwise fun a b => a.1 = b.1 → a.2 < b.2 := by
  unfold baseEntries
  split
  · next members =>
    refine List.Pairwise.filterMap _ ?_ (Value.pairwise_sortMembers members)
    rintro ⟨s, v⟩ ⟨s', v'⟩ hlt a ha b hb -
    obtain ⟨i, -, rfl⟩ := Option.map_eq_some_iff.mp ha
    obtain ⟨j, -, rfl⟩ := Option.map_eq_some_iff.mp hb
    exact hlt
  · next pieces =>
    have hascending : pieces.zipIdx.Pairwise fun a b => a.2 < b.2 := by
      rw [← List.pairwise_map (f := Prod.snd), List.zipIdx_map_snd]
      exact List.pairwise_lt_range'
    refine List.Pairwise.filterMap _ ?_ hascending
    rintro ⟨piece, i⟩ ⟨piece', j⟩ hlt a ha b hb hsame
    obtain ⟨s, -, rfl⟩ := Option.map_eq_some_iff.mp ha
    obtain ⟨s', -, rfl⟩ := Option.map_eq_some_iff.mp hb
    exact absurd hsame (ne_of_lt hlt)
  · exact List.Pairwise.nil

end GuidedDecoding
