import GuidedDecoding.Proofs.TokenMask

/-!
# Masks that are edited

Whatever is done to a mask, it stands for a finite set of ids below its size (`Holds`). Three things of a mask say
what it holds, and each edit must keep them in step: the bits of the words, the size, and the number of ids. The bits
are looked at through all words at once (`bitAt`), those at or beyond the size included, which are in the last word.
They stay clear, so a set determines its mask (`Holds.eq`).

What a run of edits makes of a mask is what it makes of the set (`holds_edited`), and from that everything that can be
asked of the mask follows (`edited_refines`).
-/

namespace GuidedDecoding
namespace TokenMask

variable {m m' : TokenMask} {size i : ℕ} {S : Finset ℕ} {id : TokenId}

/-! ### Bits through all words -/

/-- The bit at a place, counted from the first bit of the first word. -/
def bitAt (m : TokenMask) (i : ℕ) : Bool := ((m.words[i / 64]?).getD 0).toNat.testBit (i % 64)

theorem mem_iff_bitAt : id ∈ m ↔ id.toNat < m.size ∧ m.bitAt id.toNat = true := mem_iff

/-- A change of one word changes the bits of that word. -/
theorem bitAt_modify {words : Array UInt64} {place : ℕ} (hplace : place < words.size) (f : UInt64 → UInt64)
    (size count i : ℕ) :
    bitAt ⟨words.modify place f, size, count⟩ i =
      if i / 64 = place then (f words[place]).toNat.testBit (i % 64) else bitAt ⟨words, size, count⟩ i := by
  unfold bitAt
  rw [Array.getElem?_modify]
  by_cases hword : place = i / 64
  · subst hword
    simp [Array.getElem?_eq_getElem hplace]
  · rw [if_neg hword, if_neg (Ne.symm hword)]

/-- A bit is found in the word of its place. -/
theorem bitAt_of_place {words : Array UInt64} {count : ℕ} (h : i / 64 < words.size) :
    bitAt ⟨words, size, count⟩ i = words[i / 64].toNat.testBit (i % 64) := by
  simp [bitAt, Array.getElem?_eq_getElem h]

/-- Clearing the bit of an id clears just that one. -/
theorem testBit_and_not_bit (w : UInt64) (id : TokenId) (i : ℕ) :
    (w &&& ~~~ bit id).toNat.testBit (i % 64) =
      (w.toNat.testBit (i % 64) && decide (id.toNat % 64 ≠ i % 64)) := by
  have hlt : i % 64 < 64 := Nat.mod_lt _ (by decide)
  have hbit : (~~~ bit id).toNat.testBit (i % 64) = !(bit id).toNat.testBit (i % 64) := by
    show (~~~ bit id).toBitVec.getLsbD (i % 64) = !(bit id).toBitVec.getLsbD (i % 64)
    simp [hlt]
  rw [UInt64.toNat_and, Nat.testBit_and, hbit, toNat_bit, Nat.testBit_two_pow]
  simp

/-- Two places are the same if they are in one word and have the same place there. -/
theorem place_eq_iff (i j : ℕ) : i = j ↔ i / 64 = j / 64 ∧ i % 64 = j % 64 := by
  omega

/-- Inserting an id sets its bit and no other. -/
theorem bitAt_insert (h : m.Sized) (hlt : id.toNat < m.size) (hnew : id ∉ m) (i : ℕ) :
    (m.insert id).bitAt i = (m.bitAt i || decide (i = id.toNat)) := by
  have hplace := h.place_lt hlt
  have hinsert : m.insert id = ⟨m.words.modify (id.toNat / 64) (· ||| bit id), m.size, m.count + 1⟩ := by
    apply if_neg
    rintro (hle | hmem)
    · omega
    · exact hnew hmem
  rw [hinsert, bitAt_modify hplace]
  split
  · next hword =>
    -- In the word of the id the bits differ in their places there.
    have hbit := testBit_or_bit m.words[id.toNat / 64] id i.toUInt32
    have hmod : i.toUInt32.toNat % 64 = i % 64 := by
      simp only [Nat.toUInt32, UInt32.toNat_ofNat']
      omega
    rw [hmod] at hbit
    have hold : m.bitAt i = m.words[id.toNat / 64].toNat.testBit (i % 64) := by
      simp [bitAt, hword, Array.getElem?_eq_getElem hplace]
    rw [hbit, hold]
    simp [place_eq_iff i, hword, eq_comm]
  · next hword =>
    have hne : i ≠ id.toNat := by
      rintro rfl
      exact hword rfl
    simp [hne, bitAt]

/-- Removing an id clears its bit and no other. -/
theorem bitAt_erase (h : m.Sized) (hmem : id ∈ m) (i : ℕ) :
    (m.erase id).bitAt i = (m.bitAt i && decide (i ≠ id.toNat)) := by
  have hplace := h.place_lt (lt_size_of_mem hmem)
  have herase : m.erase id = ⟨m.words.modify (id.toNat / 64) (· &&& ~~~ bit id), m.size, m.count - 1⟩ :=
    if_pos hmem
  rw [herase, bitAt_modify hplace]
  split
  · next hword =>
    have hold : m.bitAt i = m.words[id.toNat / 64].toNat.testBit (i % 64) := by
      simp [bitAt, hword, Array.getElem?_eq_getElem hplace]
    rw [testBit_and_not_bit, hold]
    simp [place_eq_iff i, hword, eq_comm]
  · next hword =>
    have hne : i ≠ id.toNat := by
      rintro rfl
      exact hword rfl
    simp [hne, bitAt]

theorem bitAt_none (size i : ℕ) : (none size).bitAt i = false := by
  unfold bitAt none
  rw [Array.getElem?_replicate]
  split <;> simp

/-- The bits of a full word that are below the size. -/
theorem testBit_fullWord {place j : ℕ} (hplace : place < wordCount size) (hj : j < 64) :
    (fullWord size place).toNat.testBit j = decide (place * 64 + j < size) := by
  unfold wordCount at hplace
  unfold fullWord
  -- all words but the last are full, and the last one holds as many bits as are left
  split
  · next hfull =>
    have hall : (0xFFFFFFFFFFFFFFFF : UInt64).toNat = 2 ^ 64 - 1 := rfl
    rw [hall, Nat.testBit_two_pow_sub_one]
    simp
    omega
  · next hpart =>
    have hamount : (size % 64).toUInt64.toNat % 64 = size % 64 := by
      simp only [Nat.toUInt64, UInt64.toNat_ofNat']
      omega
    have hpow : 2 ^ (size % 64) < 2 ^ 64 := Nat.pow_lt_pow_right (by decide) (Nat.mod_lt _ (by decide))
    have hshift : (1 <<< (size % 64).toUInt64 : UInt64).toNat = 2 ^ (size % 64) := by
      rw [UInt64.toNat_shiftLeft, hamount, Nat.shiftLeft_eq]
      simpa using hpow
    have hone : (1 : UInt64) ≤ 1 <<< (size % 64).toUInt64 := by
      rw [UInt64.le_iff_toNat_le, hshift]
      exact Nat.one_le_two_pow
    rw [UInt64.toNat_sub_of_le _ _ hone, hshift]
    show (2 ^ (size % 64) - 1).testBit j = _
    rw [Nat.testBit_two_pow_sub_one]
    simp
    omega

/-- A full mask has the bits below its size. -/
theorem bitAt_all (size i : ℕ) : (all size).bitAt i = decide (i < size) := by
  unfold bitAt all
  rw [Array.getElem?_ofFn]
  split
  · next hplace =>
    rw [Option.getD_some, testBit_fullWord hplace (Nat.mod_lt _ (by decide))]
    simp
    omega
  · next hplace =>
    unfold wordCount at hplace
    simp
    omega

theorem sized_all (size : ℕ) : (all size).Sized := by
  simp [Sized, all]

theorem Sized.erase (h : m.Sized) (id : TokenId) : (m.erase id).Sized := by
  unfold TokenMask.erase
  split
  · simpa [Sized] using h
  · exact h

@[simp] theorem size_erase (m : TokenMask) (id : TokenId) : (m.erase id).size = m.size := by
  unfold erase
  split <;> rfl

/-! ### The set of a mask -/

/-- A mask of this size holds this set of ids: bits, size and number say the same. -/
structure Holds (m : TokenMask) (size : ℕ) (S : Finset ℕ) : Prop where
  size_eq : m.size = size
  sized : m.Sized
  bitAt_eq : ∀ i, m.bitAt i = decide (i ∈ S)
  lt_size : ∀ i ∈ S, i < size
  count_eq : m.count = S.card

theorem Holds.mem_iff (h : Holds m size S) : id ∈ m ↔ id.toNat ∈ S := by
  rw [mem_iff_bitAt, h.bitAt_eq, h.size_eq, decide_eq_true_iff, and_iff_right_iff_imp]
  exact h.lt_size _

theorem holds_none (size : ℕ) : Holds (none size) size ∅ where
  size_eq := rfl
  sized := sized_none size
  bitAt_eq := by simp [bitAt_none]
  lt_size := by simp
  count_eq := rfl

theorem holds_all (size : ℕ) : Holds (all size) size (Finset.range size) where
  size_eq := rfl
  sized := sized_all size
  bitAt_eq := by simp [bitAt_all]
  lt_size := by simp
  count_eq := (Finset.card_range size).symm

/-- An id at or beyond the size is not added. -/
theorem Holds.insert (h : Holds m size S) (id : TokenId) :
    Holds (m.insert id) size (if id.toNat < size then Insert.insert id.toNat S else S) := by
  -- An id beyond the size, or one that is there already, leaves the mask as it is.
  by_cases hskip : m.size ≤ id.toNat ∨ m.contains id = true
  · have hsame : m.insert id = m := if_pos hskip
    have hset : (if id.toNat < size then Insert.insert id.toNat S else S) = S := by
      split
      · next hlt =>
        refine Finset.insert_eq_of_mem (h.mem_iff.mp (hskip.resolve_left ?_))
        rw [h.size_eq]
        omega
      · rfl
    rw [hsame, hset]
    exact h
  · obtain ⟨hlt, hnew⟩ := not_or.mp hskip
    rw [not_le] at hlt
    have hlt' : id.toNat < size := h.size_eq ▸ hlt
    have hnotMem : id.toNat ∉ S := fun hmem => hnew (h.mem_iff.mpr hmem)
    rw [if_pos hlt']
    refine ⟨by rw [size_insert, h.size_eq], h.sized.insert id, ?_, ?_, ?_⟩
    · intro i
      rw [bitAt_insert h.sized hlt hnew, h.bitAt_eq]
      simp [Bool.or_comm]
    · intro i hi
      rcases Finset.mem_insert.mp hi with rfl | hi
      · exact hlt'
      · exact h.lt_size i hi
    · have hcount : (m.insert id).count = m.count + 1 := by
        unfold TokenMask.insert
        rw [if_neg hskip]
      rw [hcount, h.count_eq, Finset.card_insert_of_notMem hnotMem]

/-- The number of ids goes down only where there is one. -/
theorem Holds.erase (h : Holds m size S) (id : TokenId) : Holds (m.erase id) size (S.erase id.toNat) := by
  by_cases hmem : id ∈ m
  · have hmemS := h.mem_iff.mp hmem
    refine ⟨by rw [size_erase, h.size_eq], h.sized.erase id, ?_, ?_, ?_⟩
    · intro i
      rw [bitAt_erase h.sized hmem, h.bitAt_eq]
      simp [Bool.and_comm]
    · intro i hi
      exact h.lt_size i (Finset.mem_of_mem_erase hi)
    · have hcount : (m.erase id).count = m.count - 1 := by
        unfold TokenMask.erase
        rw [if_pos (show m.contains id = true from hmem)]
      rw [hcount, h.count_eq, Finset.card_erase_of_mem hmemS]
  · have hsame : m.erase id = m := if_neg hmem
    rw [hsame, Finset.erase_eq_of_notMem fun hmemS => hmem (h.mem_iff.mpr hmemS)]
    exact h

/-- A set with a member is not counted as empty. -/
theorem Holds.count_pos (h : Holds m size S) (hmem : id ∈ m) : 0 < m.count := by
  rw [h.count_eq, Finset.card_pos]
  exact ⟨id.toNat, h.mem_iff.mp hmem⟩

theorem Holds.bitAt_of_size_le (h : Holds m size S) (hi : size ≤ i) : m.bitAt i = false := by
  rw [h.bitAt_eq, decide_eq_false_iff_not]
  intro hmem
  have hlt := h.lt_size i hmem
  omega

/-- A set determines its mask, as no bit is set beyond the size. -/
theorem Holds.eq (h : Holds m size S) (h' : Holds m' size S) : m = m' := by
  obtain ⟨words, msize, count⟩ := m
  obtain ⟨words', msize', count'⟩ := m'
  obtain rfl : msize = size := h.size_eq
  obtain rfl : msize' = msize := h'.size_eq
  -- the words agree in each of their bits, and behind those there are none
  have hwords : words = words' := by
    have hlength : words.size = words'.size := h.sized.trans h'.sized.symm
    apply Array.ext hlength
    intro place hplace hplace'
    apply UInt64.toNat_inj.mp
    apply Nat.eq_of_testBit_eq
    intro j
    by_cases hj : j < 64
    · have hdiv : (place * 64 + j) / 64 = place := by omega
      have hmod : (place * 64 + j) % 64 = j := by omega
      have hbit := (h.bitAt_eq (place * 64 + j)).trans (h'.bitAt_eq (place * 64 + j)).symm
      rw [bitAt_of_place (by omega), bitAt_of_place (by omega)] at hbit
      simpa only [hdiv, hmod] using hbit
    · have hzero (w : UInt64) : w.toNat.testBit j = false := by
        apply Nat.testBit_lt_two_pow
        exact w.toNat_lt.trans_le (Nat.pow_le_pow_right (by decide) (not_lt.mp hj))
      rw [hzero, hzero]
  have hcount : count = count' := h.count_eq.trans h'.count_eq.symm
  rw [hwords, hcount]

/-- The ids are listed in ascending order, each once. -/
theorem Holds.toList_eq (h : Holds m size S) (hsize : size < 2 ^ 32) :
    m.toList.map UInt32.toNat = S.sort (· ≤ ·) := by
  have hid {i : ℕ} (hi : i < size) : i.toUInt32.toNat = i := by
    simp only [Nat.toUInt32, UInt32.toNat_ofNat']
    omega
  -- the listed ids are the numbers below the size that are in the set, in their order
  have hlist : m.toList.map UInt32.toNat = (List.range size).filter (· ∈ S) := by
    have hfilter : (List.range size).filter (m.contains ∘ Nat.toUInt32) = (List.range size).filter (· ∈ S) := by
      apply List.filter_congr
      intro i hi
      have hmem : i.toUInt32 ∈ m ↔ i.toUInt32.toNat ∈ S := h.mem_iff
      rw [hid (List.mem_range.mp hi)] at hmem
      exact Bool.eq_iff_iff.mpr (hmem.trans decide_eq_true_iff.symm)
    unfold toList
    rw [List.filter_map, List.map_map, h.size_eq, hfilter]
    conv_rhs => rw [← List.map_id ((List.range size).filter (· ∈ S))]
    apply List.map_congr_left
    intro i hi
    exact hid (List.mem_range.mp (List.mem_of_mem_filter hi))
  have hset : ((List.range size).filter (· ∈ S)).toFinset = S := by
    ext i
    simpa using h.lt_size i
  have hpairwise : ((List.range size).filter (· ∈ S)).Pairwise (· ≤ ·) := List.pairwise_le_range.filter _
  rw [hlist]
  conv_rhs => rw [← hset]
  exact ((List.toFinset_sort (· ≤ ·) (List.nodup_range.filter _)).mpr hpairwise).symm

/-! ### Edits -/

/-- What can be done to a mask. The first three begin a new one of the same size. -/
inductive Edit where
  | none
  | all
  | ofList (ids : List TokenId)
  | setAll (full : Bool)
  | insert (id : TokenId)
  | erase (id : TokenId)

def Edit.apply (size : ℕ) (m : TokenMask) : Edit → TokenMask
  | .none => TokenMask.none size
  | .all => TokenMask.all size
  | .ofList ids => TokenMask.ofList size ids
  | .setAll full => m.setAll full
  | .insert id => m.insert id
  | .erase id => m.erase id

def Edit.members (size : ℕ) (S : Finset ℕ) : Edit → Finset ℕ
  | .none => ∅
  | .all => Finset.range size
  | .ofList ids => (ids.map UInt32.toNat).toFinset.filter (· < size)
  | .setAll full => if full then Finset.range size else ∅
  | .insert id => if id.toNat < size then Insert.insert id.toNat S else S
  | .erase id => S.erase id.toNat

def edited (size : ℕ) (edits : List Edit) : TokenMask := edits.foldl (Edit.apply size) (none size)

def members (size : ℕ) (edits : List Edit) : Finset ℕ := edits.foldl (Edit.members size) ∅

/-- Several insertions add all the ids that are below the size. -/
theorem holds_foldl_insert (h : Holds m size S) (ids : List TokenId) :
    Holds (ids.foldl insert m) size (S ∪ (ids.map UInt32.toNat).toFinset.filter (· < size)) := by
  induction ids generalizing m S with
  | nil => simpa using h
  | cons id rest ih =>
    have hrest := ih (h.insert id)
    rw [List.foldl_cons]
    convert hrest using 1
    ext i
    by_cases hid : id.toNat < size <;> simp [hid] <;> grind

/-- Every edit does to a mask what it does to the set. -/
theorem Holds.apply (h : Holds m size S) (e : Edit) : Holds (e.apply size m) size (e.members size S) := by
  cases e with
  | none => exact holds_none size
  | all => exact holds_all size
  | ofList ids =>
    have hlist := holds_foldl_insert (holds_none size) ids
    rwa [Finset.empty_union] at hlist
  | setAll full =>
    show Holds (m.setAll full) size (if full then Finset.range size else ∅)
    rw [setAll, h.size_eq]
    cases full with
    | true => exact holds_all size
    | false => exact holds_none size
  | insert id => exact h.insert id
  | erase id => exact h.erase id

/-- Behind any edits the mask holds the set that they make. -/
theorem holds_edited (size : ℕ) (edits : List Edit) : Holds (edited size edits) size (members size edits) := by
  have hrun {m : TokenMask} {S : Finset ℕ} (h : Holds m size S) :
      Holds (edits.foldl (Edit.apply size) m) size (edits.foldl (Edit.members size) S) := by
    induction edits generalizing m S with
    | nil => exact h
    | cons e rest ih => exact ih (h.apply e)
  exact hrun (holds_none size)

/-- Whatever is done to a mask, it is the finite set that the same edits make of ids below the size: it answers for the
members, lists them in ascending order and counts them, and no bit at or beyond the size is set. An id that is removed
was counted, so the number does not fall below zero. Masks of one size are equal exactly when they hold the same ids. -/
theorem edited_refines {size : ℕ} (hsize : size < 2 ^ 32) (edits : List Edit) :
    (edited size edits).size = size ∧ (edited size edits).words.size = wordCount size ∧
      (∀ i ∈ members size edits, i < size) ∧
      (∀ id : TokenId, (edited size edits).contains id = decide (id.toNat ∈ members size edits)) ∧
      (edited size edits).toList.map UInt32.toNat = (members size edits).sort (· ≤ ·) ∧
      (edited size edits).count = (members size edits).card ∧
      (∀ id : TokenId, (edited size edits).contains id = true → 0 < (edited size edits).count) ∧
      (∀ i, size ≤ i → (edited size edits).bitAt i = false) ∧
      ∀ others : List Edit, (edited size edits == edited size others) = true ↔
        ∀ id : TokenId, (edited size edits).contains id = (edited size others).contains id := by
  have h := holds_edited size edits
  have hsized : (edited size edits).words.size = wordCount size := by
    rw [h.sized, h.size_eq]
  have hcontains (edits : List Edit) (id : TokenId) :
      (edited size edits).contains id = decide (id.toNat ∈ members size edits) :=
    Bool.eq_iff_iff.mpr ((holds_edited size edits).mem_iff.trans decide_eq_true_iff.symm)
  refine ⟨h.size_eq, hsized, h.lt_size, hcontains edits, h.toList_eq hsize, h.count_eq, fun id => h.count_pos,
    fun i => h.bitAt_of_size_le, ?_⟩
  intro others
  have h' := holds_edited size others
  rw [beq_iff_eq]
  constructor
  · intro heq id
    rw [heq]
  · intro hsame
    -- Every member is below the size, so it is an id.
    have hset : members size edits = members size others := by
      ext i
      by_cases hi : i < size
      · have hid : i.toUInt32.toNat = i := by
          simp only [Nat.toUInt32, UInt32.toNat_ofNat']
          omega
        have hmem := hsame i.toUInt32
        rw [hcontains, hcontains, hid] at hmem
        exact decide_eq_decide.mp hmem
      · exact iff_of_false (fun hmem => hi (h.lt_size i hmem)) (fun hmem => hi (h'.lt_size i hmem))
    rw [← hset] at h'
    exact h.eq h'

/-- A mask of 70 ids, the last of them in a word of its own, that is filled, emptied of one id twice and asked to add
one beyond the size. -/
theorem edited_refines_seventy :
    70 < 2 ^ 32 ∧ (edited 70 [.all, .erase 69, .erase 69, .insert 70]).count = 69 ∧
      (edited 70 [.all, .erase 69, .erase 69, .insert 70]).contains 69 = false ∧
      (edited 70 [.all, .erase 69, .erase 69, .insert 70]).bitAt 70 = false := by
  have hsize : 70 < 2 ^ 32 := by decide
  obtain ⟨-, -, -, hcontains, -, hcount, -, hclear, -⟩ :=
    edited_refines hsize [.all, .erase 69, .erase 69, .insert 70]
  refine ⟨hsize, ?_, ?_, hclear 70 le_rfl⟩
  · rw [hcount]
    decide
  · rw [hcontains]
    decide

end TokenMask
end GuidedDecoding
