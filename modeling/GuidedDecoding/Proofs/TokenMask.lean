import GuidedDecoding.TokenMask
import Mathlib

/-!
# Token masks as sets

A mask answers for the set of ids that were put into it. Each id has one bit in one word, so inserting an id
changes the answer for that id alone (`mem_insert`), and a mask that is filled from a list holds the ids of
the list that are below its size (`mem_foldl_insert`).

All of this needs as many words as the size takes, which is `Sized`; every operation keeps it.
-/

namespace GuidedDecoding
namespace TokenMask

def Sized (m : TokenMask) : Prop := m.words.size = wordCount m.size

/-! ### Bits -/

theorem toNat_bit (id : TokenId) : (bit id).toNat = 2 ^ (id.toNat % 64) := by
  have hlt : id.toNat % 64 < 64 := Nat.mod_lt _ (by decide)
  have hamount : (id.toUInt64 % 64).toNat % 64 = id.toNat % 64 := by
    rw [UInt64.toNat_mod]
    simp
  unfold bit
  rw [UInt64.toNat_shiftLeft, hamount, Nat.shiftLeft_eq]
  have hpow : 2 ^ (id.toNat % 64) < 2 ^ 64 := Nat.pow_lt_pow_right (by decide) hlt
  simpa using hpow

/-- A word has the bit of an id in common with that id exactly when it is set there. -/
theorem and_bit_ne_zero_iff (w : UInt64) (id : TokenId) :
    (w &&& bit id != 0) = w.toNat.testBit (id.toNat % 64) := by
  have hand : (w &&& bit id).toNat = (w.toNat.testBit (id.toNat % 64)).toNat * 2 ^ (id.toNat % 64) := by
    rw [UInt64.toNat_and, toNat_bit, Nat.and_two_pow]
  cases hb : w.toNat.testBit (id.toNat % 64) with
  | false =>
    have hzero : w &&& bit id = 0 := UInt64.toNat_inj.mp (by rw [hand, hb]; simp)
    simp [hzero]
  | true =>
    have hne : w &&& bit id ≠ 0 := by
      intro h
      rw [h, hb] at hand
      have hpos : 0 < 2 ^ (id.toNat % 64) := Nat.two_pow_pos _
      simp at hand
      omega
    simp [hne]

/-- The bit of `id` in the word that `a` looks at is the bit of `a` only if both have the same place in
a word. -/
theorem testBit_or_bit (w : UInt64) (id a : TokenId) :
    (w ||| bit id).toNat.testBit (a.toNat % 64) =
      (w.toNat.testBit (a.toNat % 64) || decide (id.toNat % 64 = a.toNat % 64)) := by
  rw [UInt64.toNat_or, toNat_bit, Nat.testBit_or, Nat.testBit_two_pow]

/-! ### Membership -/

/-- An id is in the set if its bit is set, and it is below the size. -/
theorem mem_iff {m : TokenMask} {id : TokenId} :
    id ∈ m ↔ id.toNat < m.size ∧
      ((m.words[id.toNat / 64]?).getD 0).toNat.testBit (id.toNat % 64) = true := by
  show m.contains id = true ↔ _
  unfold contains
  rw [Bool.and_eq_true, decide_eq_true_eq, and_bit_ne_zero_iff]

theorem lt_size_of_mem {m : TokenMask} {id : TokenId} (h : id ∈ m) : id.toNat < m.size :=
  (mem_iff.mp h).1

theorem sized_none (size : Nat) : (none size).Sized := by
  simp [Sized, none]

@[simp] theorem not_mem_none (size : Nat) (id : TokenId) : id ∉ none size := by
  intro h
  have hbit := (mem_iff.mp h).2
  unfold none at hbit
  rw [Array.getElem?_replicate] at hbit
  split at hbit <;> simp at hbit

@[simp] theorem setAll_false (m : TokenMask) : m.setAll false = none m.size := rfl

@[simp] theorem size_none (size : Nat) : (none size).size = size := rfl

@[simp] theorem size_insert (m : TokenMask) (id : TokenId) : (m.insert id).size = m.size := by
  unfold insert
  split <;> rfl

/-- An insertion leaves the number of words. -/
theorem Sized.insert {m : TokenMask} (h : m.Sized) (id : TokenId) : (m.insert id).Sized := by
  unfold Sized TokenMask.insert
  split
  · exact h
  · simpa [Sized] using h

/-- The word of an id that is below the size is there. -/
theorem Sized.place_lt {m : TokenMask} (h : m.Sized) {id : TokenId} (hid : id.toNat < m.size) :
    id.toNat / 64 < m.words.size := by
  rw [h, wordCount]
  omega

/-- Inserting an id adds that id, if it is below the size, and no other. -/
theorem mem_insert {m : TokenMask} (h : m.Sized) {id a : TokenId} :
    a ∈ m.insert id ↔ a ∈ m ∨ (a = id ∧ id.toNat < m.size) := by
  by_cases hskip : m.size ≤ id.toNat ∨ m.contains id = true
  · have hsame : m.insert id = m := if_pos hskip
    rw [hsame]
    refine ⟨Or.inl, ?_⟩
    rintro (ha | ⟨rfl, hlt⟩)
    · exact ha
    · rcases hskip with hsize | hmem
      · omega
      · exact hmem
  · have hlt : id.toNat < m.size := by
      rw [not_or] at hskip
      omega
    have hplace : id.toNat / 64 < m.words.size := h.place_lt hlt
    have hwords : (m.insert id).words = m.words.modify (id.toNat / 64) (· ||| bit id) := by
      unfold TokenMask.insert
      rw [if_neg hskip]
    rw [mem_iff, mem_iff, size_insert, hwords, Array.getElem?_modify]
    by_cases hword : id.toNat / 64 = a.toNat / 64
    · -- Both ids are in one word, so they differ in their places there or not at all.
      rw [if_pos hword, ← hword, Array.getElem?_eq_getElem hplace]
      simp only [Option.map_some, Option.getD_some, testBit_or_bit, Bool.or_eq_true, decide_eq_true_eq]
      have heq : a = id ↔ id.toNat % 64 = a.toNat % 64 := by
        rw [← UInt32.toNat_inj]
        omega
      constructor
      · rintro ⟨ha, hbit | hbit⟩
        · exact Or.inl ⟨ha, hbit⟩
        · exact Or.inr ⟨heq.mpr hbit, hlt⟩
      · rintro (⟨ha, hbit⟩ | ⟨rfl, _⟩)
        · exact ⟨ha, Or.inl hbit⟩
        · exact ⟨hlt, Or.inr rfl⟩
    · rw [if_neg hword]
      have hne : a ≠ id := fun h => hword (by rw [h])
      simp [hne]

/-- A mask that is filled from a list holds the ids of the list that are below its size. -/
theorem mem_foldl_insert {m : TokenMask} (h : m.Sized) (ids : List TokenId) {a : TokenId} :
    a ∈ ids.foldl TokenMask.insert m ↔ a ∈ m ∨ (a ∈ ids ∧ a.toNat < m.size) := by
  induction ids generalizing m with
  | nil => simp
  | cons id rest ih =>
    rw [List.foldl_cons, ih (h.insert id), mem_insert h, size_insert, List.mem_cons]
    constructor
    · rintro ((ha | ⟨rfl, hlt⟩) | ⟨ha, hlt⟩)
      · exact Or.inl ha
      · exact Or.inr ⟨Or.inl rfl, hlt⟩
      · exact Or.inr ⟨Or.inr ha, hlt⟩
    · rintro (ha | ⟨rfl | ha, hlt⟩)
      · exact Or.inl (Or.inl ha)
      · exact Or.inl (Or.inr ⟨rfl, hlt⟩)
      · exact Or.inr ⟨ha, hlt⟩

/-- The ids that are listed are those in the set. -/
theorem mem_toList {m : TokenMask} {id : TokenId} : id ∈ m.toList ↔ id ∈ m := by
  unfold toList
  rw [List.mem_filter, List.mem_map]
  constructor
  · intro h
    exact h.2
  · intro h
    exact ⟨⟨id.toNat, List.mem_range.mpr (lt_size_of_mem h), by simp⟩, h⟩

/-! ### Scores -/

@[simp] theorem length_apply (m : TokenMask) (scores : List Float32) : (m.apply scores).length = scores.length := by
  simp [apply]

/-- Each entry of masked scores is the one it was, or negative infinity if its id is not in the mask. -/
theorem getElem?_apply {m : TokenMask} {scores : List Float32} {i : Nat} {x : Float32}
    (h : scores[i]? = some x) :
    (m.apply scores)[i]? = some (if m.contains i.toUInt32 then x else Float32.ofBits 0xFF800000) := by
  unfold apply
  rw [List.getElem?_mapIdx, h, Option.map_some]

end TokenMask
end GuidedDecoding
