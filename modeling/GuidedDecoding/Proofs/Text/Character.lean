import GuidedDecoding.Proofs.Text.Utf8

/-!
# The bytes of one character

A reader between characters takes the bytes of each character, and the bytes of that character only
(`completes_between_iff`). Inside a character it knows between which code points the character will be, and
each of them is still possible (`Begun.range_of_completes`, `Holds.exists_completes`).

So the encoding of a text is read as that text (`decode_encode`), and a byte of the ASCII range in it is always a
character (`exists_of_encode_ascii`).
-/

namespace GuidedDecoding.Utf8
namespace Reading

def Completes : Reading → Bytes → Char → Prop
  | _, [], _ => False
  | r, b :: bs, c =>
    match r.accept b with
    | .more next => next.Completes bs c
    | .char c' => bs = [] ∧ c' = c
    | .refused => False

variable {r next : Reading} {held bs : Bytes} {b : UInt8} {c : Char}

theorem completes_of_more (h : r.accept b = .more next) : r.Completes (b :: bs) c ↔ next.Completes bs c := by
  simp only [Completes, h]

theorem completes_of_char {c' : Char} (h : r.accept b = .char c') :
    r.Completes (b :: bs) c ↔ bs = [] ∧ c' = c := by
  simp only [Completes, h]

theorem not_completes_of_refused (h : r.accept b = .refused) : ¬ r.Completes (b :: bs) c := by
  simp only [Completes, h, not_false_eq_true]

/-- The bytes that complete a character are the rest of its encoding. -/
theorem Holds.encode_of_completes (h : Holds r held) (hc : r.Completes bs c) :
    String.utf8EncodeChar c = held ++ bs := by
  induction bs generalizing r held with
  | nil => exact hc.elim
  | cons b bs ih =>
    cases hb : r.accept b with
    | more next =>
      rw [completes_of_more hb] at hc
      rw [ih (h.more hb) hc]
      simp
    | char c' =>
      rw [completes_of_char hb] at hc
      obtain ⟨rfl, rfl⟩ := hc
      exact h.encode hb
    | refused => exact (not_completes_of_refused hb hc).elim

/-! ### Every character is read -/

theorem toNat_ofNat {n : Nat} (h : n < 0x100) : (UInt8.ofNat n).toNat = n := by
  rw [UInt8.toNat_ofNat']
  exact Nat.mod_eq_of_lt h

/-- A byte in the range of a reader inside a character adds its six bits to the code point. -/
theorem accept_digit (owed code : Nat) {digit : Nat} {low high b : UInt8} (hb : b.toNat = 0x80 + digit)
    (hdigit : digit < 0x40) (hlow : low.toNat ≤ 0x80 + digit) (hhigh : 0x80 + digit ≤ high.toNat) :
    (inside owed low high code).accept b =
      if owed ≤ 1 then .char (Char.ofNat (code * 0x40 + digit))
      else .more (.inside (owed - 1) 0x80 0xBF (code * 0x40 + digit)) := by
  have hmod : b.toNat % 0x40 = digit := by omega
  have hrange : low ≤ b ∧ b ≤ high := by
    rw [UInt8.le_iff_toNat_le, UInt8.le_iff_toNat_le, hb]
    exact ⟨hlow, hhigh⟩
  simp only [accept, hmod, if_pos hrange]

/-- Whatever code point the owed bytes can make up, some bytes do. -/
theorem exists_completes_inside (k code : Nat) {low high : UInt8} {digit rest : Nat}
    (hdigit : digit < 0x40) (hrest : rest < 0x40 ^ k) (hlow : low.toNat ≤ 0x80 + digit)
    (hhigh : 0x80 + digit ≤ high.toNat) :
    ∃ bs, (inside (k + 1) low high code).Completes bs
      (Char.ofNat ((code * 0x40 + digit) * 0x40 ^ k + rest)) := by
  have hbyte : (UInt8.ofNat (0x80 + digit)).toNat = 0x80 + digit := toNat_ofNat (by omega)
  have haccept := accept_digit (k + 1) code hbyte hdigit hlow hhigh
  induction k generalizing code low high digit rest with
  | zero =>
    obtain rfl : rest = 0 := by simpa using hrest
    refine ⟨[UInt8.ofNat (0x80 + digit)], (completes_of_char haccept).mpr ⟨rfl, ?_⟩⟩
    simp
  | succ k ih =>
    rw [if_neg (by omega)] at haccept
    -- The number that is left begins with the six bits of the next byte.
    have hnext : rest / 0x40 ^ k < 0x40 := by
      rw [Nat.div_lt_iff_lt_mul (Nat.pow_pos (by decide)), ← Nat.pow_succ']
      exact hrest
    have hleft : rest % 0x40 ^ k < 0x40 ^ k := Nat.mod_lt _ (Nat.pow_pos (by decide))
    have hlow' : (0x80 : UInt8).toNat ≤ 0x80 + rest / 0x40 ^ k := Nat.le_add_right _ _
    have hhigh' : 0x80 + rest / 0x40 ^ k ≤ (0xBF : UInt8).toNat := by
      show _ ≤ 0xBF
      omega
    have hbyte' : (UInt8.ofNat (0x80 + rest / 0x40 ^ k)).toNat = 0x80 + rest / 0x40 ^ k :=
      toNat_ofNat (by omega)
    obtain ⟨bs, hbs⟩ := ih _ hnext hleft hlow' hhigh' hbyte'
      (accept_digit _ (code * 0x40 + digit) hbyte' hnext hlow' hhigh')
    refine ⟨UInt8.ofNat (0x80 + digit) :: bs, (completes_of_more haccept).mpr ?_⟩
    have hcode : ((code * 0x40 + digit) * 0x40 + rest / 0x40 ^ k) * 0x40 ^ k + rest % 0x40 ^ k =
        (code * 0x40 + digit) * 0x40 ^ (k + 1) + rest := by
      rw [Nat.add_mul, Nat.add_assoc, Nat.mul_comm (rest / 0x40 ^ k), Nat.div_add_mod, Nat.mul_assoc,
        ← Nat.pow_succ']
    rw [← hcode]
    exact hbs

/-- The first byte of a character of two, three or four bytes. -/
theorem accept_two {b : UInt8} {n : Nat} (hb : b.toNat = 0xC0 + n) (hn : 2 ≤ n) (hn' : n < 0x20) :
    Reading.between.accept b = .more (.inside 1 0x80 0xBF n) := by
  have hmod : b.toNat % 0x20 = n := by omega
  unfold accept
  simp only [UInt8.lt_iff_toNat_lt, ← UInt8.toNat_inj, UInt8.toNat_ofNat, Nat.reducePow, Nat.reduceMod]
  rw [if_neg (by omega), if_neg (by omega), if_pos (by omega), hmod]

/-- The first byte of three. -/
theorem accept_three {b : UInt8} {n : Nat} (hb : b.toNat = 0xE0 + n) (hn : n < 0x10) :
    Reading.between.accept b = .more (.inside 2 (if n = 0 then 0xA0 else 0x80)
      (if n = 0xD then 0x9F else 0xBF) n) := by
  have hmod : b.toNat % 0x10 = n := by omega
  unfold accept
  simp only [UInt8.lt_iff_toNat_lt, ← UInt8.toNat_inj, UInt8.toNat_ofNat, Nat.reducePow, Nat.reduceMod]
  rw [if_neg (by omega), if_neg (by omega), if_neg (by omega)]
  rcases Nat.eq_zero_or_pos n with rfl | hpos
  · rw [if_pos (by omega)]
    rfl
  · rw [if_neg (by omega), if_neg (c := n = 0) (by omega)]
    by_cases hD : n = 0xD
    · subst hD
      rw [if_pos (by omega)]
      rfl
    · rw [if_neg (by omega), if_neg hD, if_pos (by omega), hmod]

/-- The first byte of four. -/
theorem accept_four {b : UInt8} {n : Nat} (hb : b.toNat = 0xF0 + n) (hn : n ≤ 4) :
    Reading.between.accept b = .more (.inside 3 (if n = 0 then 0x90 else 0x80)
      (if n = 4 then 0x8F else 0xBF) n) := by
  have hmod : b.toNat % 0x08 = n := by omega
  unfold accept
  simp only [UInt8.lt_iff_toNat_lt, ← UInt8.toNat_inj, UInt8.toNat_ofNat, Nat.reducePow, Nat.reduceMod]
  rw [if_neg (by omega), if_neg (by omega), if_neg (by omega), if_neg (by omega), if_neg (by omega),
    if_neg (by omega)]
  rcases Nat.eq_zero_or_pos n with rfl | hpos
  · rw [if_pos (by omega)]
    rfl
  · rw [if_neg (by omega), if_neg (c := n = 0) (by omega)]
    by_cases h4 : n = 4
    · subst h4
      rw [if_neg (by omega), if_pos (by omega)]
      rfl
    · rw [if_pos (by omega), if_neg h4, hmod]

/-- A code point is that of a character whose first byte leaves room for the rest of it. -/
theorem exists_completes_of_more (k : Nat) {b low high : UInt8} {code n : Nat}
    (hb : Reading.between.accept b = .more (.inside (k + 1) low high code))
    (hcode : n / 0x40 ^ (k + 1) = code) (hlow : low.toNat ≤ 0x80 + n / 0x40 ^ k % 0x40)
    (hhigh : 0x80 + n / 0x40 ^ k % 0x40 ≤ high.toNat) :
    ∃ bs, Reading.between.Completes bs (Char.ofNat n) := by
  have hpos : 0 < 0x40 ^ k := Nat.pow_pos (by decide)
  obtain ⟨bs, hbs⟩ := exists_completes_inside k code (Nat.mod_lt (n / 0x40 ^ k) (by decide))
    (Nat.mod_lt n hpos) hlow hhigh
  refine ⟨b :: bs, (completes_of_more hb).mpr ?_⟩
  have hn : (code * 0x40 + n / 0x40 ^ k % 0x40) * 0x40 ^ k + n % 0x40 ^ k = n := by
    rw [← hcode, Nat.pow_succ, ← Nat.div_div_eq_div_mul, Nat.mul_comm (_ / 0x40), Nat.div_add_mod,
      Nat.mul_comm, Nat.div_add_mod]
  rwa [hn] at hbs

/-- Every character is completed by some bytes. -/
theorem exists_completes (c : Char) : ∃ bs, Reading.between.Completes bs c := by
  have hvalid : c.toNat < 0xD800 ∨ 0xDFFF < c.toNat ∧ c.toNat < 0x110000 := c.valid
  have hc : Char.ofNat c.toNat = c := Char.ofNat_toNat c
  generalize c.toNat = n at hvalid hc
  subst hc
  -- by the number of bytes that the character takes
  by_cases h1 : n < 0x80
  · have hb : (UInt8.ofNat n).toNat = n := toNat_ofNat (by omega)
    have haccept : Reading.between.accept (UInt8.ofNat n) = .char (Char.ofNat n) := by
      unfold accept
      simp only [UInt8.lt_iff_toNat_lt, hb]
      exact if_pos h1
    exact ⟨[UInt8.ofNat n], (completes_of_char haccept).mpr ⟨rfl, rfl⟩⟩
  by_cases h2 : n < 0x800
  · have haccept := accept_two (toNat_ofNat (n := 0xC0 + n / 0x40) (by omega)) (by omega) (by omega)
    apply exists_completes_of_more 0 haccept
    · simp
    · show 0x80 ≤ _
      omega
    · show _ ≤ 0xBF
      omega
  by_cases h3 : n < 0x10000
  · have haccept := accept_three (toNat_ofNat (n := 0xE0 + n / 0x1000) (by omega)) (by omega)
    -- The bounds on the second byte keep out short forms and surrogates.
    apply exists_completes_of_more 1 haccept
    · simp
    · split
      · show 0xA0 ≤ _
        simp only [Nat.pow_one]
        omega
      · show 0x80 ≤ _
        omega
    · split
      · show _ ≤ 0x9F
        simp only [Nat.pow_one]
        omega
      · show _ ≤ 0xBF
        omega
  · have haccept := accept_four (toNat_ofNat (n := 0xF0 + n / 0x40000) (by omega)) (by omega)
    apply exists_completes_of_more 2 haccept
    · simp
    · split
      · show 0x90 ≤ _
        simp only [Nat.reducePow]
        omega
      · show 0x80 ≤ _
        omega
    · split
      · show _ ≤ 0x8F
        simp only [Nat.reducePow]
        omega
      · show _ ≤ 0xBF
        omega

/-- Between characters the bytes of a character complete it, and no others do. -/
theorem completes_between_iff : Reading.between.Completes bs c ↔ bs = String.utf8EncodeChar c := by
  constructor
  · intro h
    exact (holds_between.encode_of_completes h).symm
  · rintro rfl
    obtain ⟨bs, hbs⟩ := exists_completes c
    rw [holds_between.encode_of_completes hbs]
    exact hbs

/-! ### Between which code points -/

theorem Begun.ne_nil (h : Begun r held) : held ≠ [] := by
  cases h <;> exact List.cons_ne_nil _ _

/-- The code point lies in the range that the bytes so far leave. -/
theorem code_of_completes {owed code : Nat} {low high : UInt8} (hlow : 0x80 ≤ low.toNat)
    (hhigh : high.toNat ≤ 0xBF) (h : (inside (owed + 1) low high code).Completes bs c) :
    ∃ n, c = Char.ofNat n ∧ (code * 0x40 + low.toNat % 0x40) * 0x40 ^ owed ≤ n ∧
      n < (code * 0x40 + high.toNat % 0x40 + 1) * 0x40 ^ owed := by
  -- on the bytes that are still to come, of which each narrows the range by six bits
  induction bs generalizing owed low high code with
  | nil => exact h.elim
  | cons b bs ih =>
    cases hb : (inside (owed + 1) low high code).accept b with
    | refused => exact (not_completes_of_refused hb h).elim
    | char c' =>
      obtain ⟨hl, hh, hout⟩ := accept_inside hb nofun
      rw [completes_of_char hb] at h
      split at hout
      · next howed =>
        obtain rfl : owed = 0 := by omega
        cases hout
        refine ⟨_, h.2.symm, ?_, ?_⟩ <;> omega
      · cases hout
    | more next =>
      obtain ⟨hl, hh, hout⟩ := accept_inside hb nofun
      rw [completes_of_more hb] at h
      split at hout
      · cases hout
      · next howed =>
        cases hout
        obtain ⟨owed, rfl⟩ : ∃ k, owed = k + 1 := ⟨owed - 1, by omega⟩
        obtain ⟨n, hn, hlow', hhigh'⟩ := ih (by decide) (by decide) h
        refine ⟨n, hn, Nat.le_trans ?_ hlow', Nat.lt_of_lt_of_le hhigh' ?_⟩
        · rw [Nat.pow_succ', ← Nat.mul_assoc]
          exact Nat.mul_le_mul_right _ (by omega)
        · rw [Nat.pow_succ', ← Nat.mul_assoc]
          exact Nat.mul_le_mul_right _ (by omega)

/-- A reader inside a character owes bytes, and takes only those that continue one. -/
theorem Begun.exists_inside (h : Begun r held) :
    ∃ owed low high code, r = .inside (owed + 1) low high code ∧ 0x80 ≤ low.toNat ∧ high.toNat ≤ 0xBF := by
  cases h with
  | ofTwo => exact ⟨0, _, _, _, rfl, by decide, by decide⟩
  | ofThree _ _ hlow hhigh => exact ⟨1, _, _, _, rfl, hlow, hhigh⟩
  | ofThreeTwo => exact ⟨0, _, _, _, rfl, by decide, by decide⟩
  | ofFour _ _ hlow hhigh => exact ⟨2, _, _, _, rfl, hlow, hhigh⟩
  | ofFourTwo => exact ⟨1, _, _, _, rfl, by decide, by decide⟩
  | ofFourThree => exact ⟨0, _, _, _, rfl, by decide, by decide⟩

/-- A reader inside a character completes nothing that is no code point. -/
theorem Begun.isValidChar_of_completes {n : Nat} (h : Begun r held) (hc : r.Completes bs (Char.ofNat n)) :
    n.isValidChar := by
  have hencode := Holds.encode_of_completes (Or.inr h) hc
  by_contra hinvalid
  -- A number that is no code point stands for a character of one byte, and there are more.
  have hnull : Char.ofNat n = '\x00' := by
    unfold Char.ofNat
    rw [dif_neg hinvalid]
    rfl
  have hone : String.utf8EncodeChar '\x00' = [0] := by decide
  rw [hnull, hone] at hencode
  cases held with
  | nil => exact h.ne_nil rfl
  | cons a held =>
    rw [List.cons_append, List.cons.injEq] at hencode
    obtain ⟨-, rfl⟩ := List.append_eq_nil_iff.mp hencode.2.symm
    exact hc.elim

/-- The character that a reader completes lies in its range. -/
theorem Begun.range_of_completes (h : Begun r held) (hc : r.Completes bs c) :
    r.range.1 ≤ c.toNat ∧ c.toNat ≤ r.range.2 := by
  obtain ⟨owed, low, high, code, rfl, hlow, hhigh⟩ := h.exists_inside
  obtain ⟨n, rfl, hn, hn'⟩ := code_of_completes hlow hhigh hc
  have hval : (Char.ofNat n).toNat = n := val_ofNat (h.isValidChar_of_completes hc)
  rw [hval]
  unfold range
  exact ⟨hn, Nat.le_sub_one_of_lt hn'⟩

/-- Behind a byte that does not complete a character, only bytes that continue one may come, and some may. -/
theorem exists_inside_of_more (h : r.accept b = .more next) :
    ∃ owed low high code, next = .inside (owed + 1) low high code ∧ 0x80 ≤ low.toNat ∧
      low.toNat ≤ high.toNat ∧ high.toNat ≤ 0xBF := by
  cases r with
  | between =>
    unfold accept at h
    dsimp only at h
    repeat' split at h
    all_goals cases h
    all_goals refine ⟨_, _, _, _, rfl, ?_, ?_, ?_⟩
    all_goals decide
  | inside owed low high code =>
    obtain ⟨-, -, hout⟩ := accept_inside h nofun
    split at hout
    · cases hout
    · next howed =>
      cases hout
      obtain ⟨owed, rfl⟩ : ∃ k, owed = k + 2 := ⟨owed - 2, by omega⟩
      refine ⟨owed, _, _, _, rfl, ?_, ?_, ?_⟩
      all_goals decide

/-- Some code point can still be completed. -/
theorem range_le_of_more (h : r.accept b = .more next) : next.range.1 ≤ next.range.2 := by
  obtain ⟨owed, low, high, code, rfl, hlow, hle, hhigh⟩ := exists_inside_of_more h
  apply Nat.le_sub_one_of_lt
  apply Nat.mul_lt_mul_of_pos_right
  · omega
  · exact Nat.pow_pos (by decide)

/-- Every code point in the range that a byte leaves is that of a character that can still be completed. -/
theorem Holds.exists_completes {n : Nat} (h : Holds r held) (hb : r.accept b = .more next)
    (hfirst : next.range.1 ≤ n) (hlast : n ≤ next.range.2) : ∃ c bs, c.toNat = n ∧ next.Completes bs c := by
  have hbegun := h.begun_of_more hb
  obtain ⟨owed, low, high, code, rfl, hlow, hle, hhigh⟩ := exists_inside_of_more hb
  have hunit : 0 < 0x40 ^ owed := Nat.pow_pos (by decide)
  have hfirst_mul : (code * 0x40 + low.toNat % 0x40) * 0x40 ^ owed ≤ n := hfirst
  have hlast_mul : n < (code * 0x40 + high.toNat % 0x40 + 1) * 0x40 ^ owed :=
    Nat.lt_of_le_of_lt hlast (Nat.sub_lt (Nat.mul_pos (Nat.succ_pos _) hunit) Nat.one_pos)
  -- The six bits that the next byte has to bring.
  have hleast : code * 0x40 + low.toNat % 0x40 ≤ n / 0x40 ^ owed := (Nat.le_div_iff_mul_le hunit).mpr hfirst_mul
  have hmost : n / 0x40 ^ owed < code * 0x40 + high.toNat % 0x40 + 1 :=
    (Nat.div_lt_iff_lt_mul hunit).mpr hlast_mul
  obtain ⟨digit, hdigit⟩ : ∃ digit, n / 0x40 ^ owed = code * 0x40 + digit :=
    ⟨n / 0x40 ^ owed - code * 0x40, by omega⟩
  have hdigit_lt : digit < 0x40 := by omega
  have hdigit_low : low.toNat ≤ 0x80 + digit := by omega
  have hdigit_high : 0x80 + digit ≤ high.toNat := by omega
  obtain ⟨bs, hbs⟩ := exists_completes_inside owed code hdigit_lt (Nat.mod_lt n hunit) hdigit_low hdigit_high
  have hn : (code * 0x40 + digit) * 0x40 ^ owed + n % 0x40 ^ owed = n := by
    rw [← hdigit, Nat.mul_comm, Nat.div_add_mod]
  rw [hn] at hbs
  exact ⟨Char.ofNat n, bs, val_ofNat (hbegun.isValidChar_of_completes hbs), hbs⟩

/-! ### What is left of a character -/

/-- The bytes are those of the character that are still to come; between characters these are all of them. -/
def Spells : Reading → Bytes → Char → Prop
  | .between, bs, c => bs = String.utf8EncodeChar c
  | .inside owed low high code, bs, c => (inside owed low high code).Completes bs c

/-- The bytes that complete a character are those that are still to come. -/
theorem spells_iff : r.Spells bs c ↔ r.Completes bs c := by
  cases r with
  | between => exact completes_between_iff.symm
  | inside => exact Iff.rfl

/-- A character takes a byte at least. -/
theorem not_spells_nil : ¬ r.Spells [] c := by
  rw [spells_iff]
  exact id

/-! ### Bytes of the ASCII range -/

/-- A reader inside a character does not complete it with a byte of the ASCII range. -/
theorem Begun.not_completes (h : Begun r held) (hb : b.toNat < 0x80) (rest : Bytes) :
    ¬ r.Completes (bs ++ b :: rest) c := by
  induction bs generalizing r held with
  | nil => exact not_completes_of_refused (h.refuses hb)
  | cons x bs ih =>
    rw [List.cons_append]
    cases hx : r.accept x with
    | more next =>
      rw [completes_of_more hx]
      exact ih (h.more hx)
    | char c' =>
      rw [completes_of_char hx]
      simp
    | refused => exact not_completes_of_refused hx

/-- A byte of the ASCII range is a character by itself. -/
theorem eq_of_encode_ascii {rest : Bytes} (hb : b.toNat < 0x80) (h : String.utf8EncodeChar c = bs ++ b :: rest) :
    bs = [] ∧ rest = [] ∧ c = Char.ofNat b.toNat := by
  have hcompletes := completes_between_iff.mpr h.symm
  cases bs with
  | nil =>
    have haccept : Reading.between.accept b = .char (Char.ofNat b.toNat) := by
      unfold accept
      exact if_pos hb
    rw [List.nil_append, completes_of_char haccept] at hcompletes
    exact ⟨rfl, hcompletes.1, hcompletes.2.symm⟩
  | cons x bs =>
    rw [List.cons_append] at hcompletes
    cases hx : Reading.between.accept x with
    | more next =>
      rw [completes_of_more hx] at hcompletes
      exact absurd hcompletes ((begun_of_accept hx).not_completes hb rest)
    | char c' =>
      rw [completes_of_char hx] at hcompletes
      simp at hcompletes
    | refused => exact absurd hcompletes (not_completes_of_refused hx)

/-- A byte of the ASCII range in the bytes of some characters is one of these, between those of the bytes on either
side of it. -/
theorem exists_of_encode_ascii {cs : List Char} {rest : Bytes} (hb : b.toNat < 0x80)
    (h : cs.flatMap String.utf8EncodeChar = bs ++ b :: rest) :
    ∃ front back, cs = front ++ Char.ofNat b.toNat :: back ∧ front.flatMap String.utf8EncodeChar = bs ∧
      back.flatMap String.utf8EncodeChar = rest := by
  induction cs generalizing bs with
  | nil => simp at h
  | cons c cs ih =>
    rw [List.flatMap_cons] at h
    rcases List.append_eq_append_iff.mp h with ⟨between, rfl, hcs⟩ | ⟨between, hc, hcs⟩
    · obtain ⟨front, back, rfl, hfront, hback⟩ := ih hcs
      exact ⟨c :: front, back, rfl, by rw [List.flatMap_cons, hfront], hback⟩
    · cases between with
      | nil =>
        have hrest : cs.flatMap String.utf8EncodeChar = [] ++ b :: rest := hcs.symm
        obtain ⟨front, back, rfl, hfront, hback⟩ := ih hrest
        exact ⟨c :: front, back, rfl, by simp [hfront, hc], hback⟩
      | cons x between =>
        rw [List.cons_append, List.cons.injEq] at hcs
        obtain ⟨rfl, hcs⟩ := hcs
        obtain ⟨rfl, rfl, rfl⟩ := eq_of_encode_ascii hb hc
        exact ⟨[], cs, rfl, rfl, hcs.symm⟩

/-! ### The text of an encoding -/

/-- Bytes that complete a character are read as that one. -/
theorem chars_append_of_completes (h : r.Completes bs c) (rest : Bytes) :
    r.chars (bs ++ rest) = c :: Reading.between.chars rest := by
  induction bs generalizing r with
  | nil => exact h.elim
  | cons b bs ih =>
    rw [List.cons_append, chars]
    cases hb : r.accept b with
    | more next =>
      rw [completes_of_more hb] at h
      rw [step_more hb, List.nil_append]
      exact ih h
    | char c' =>
      rw [completes_of_char hb] at h
      obtain ⟨rfl, rfl⟩ := h
      rw [step_char hb]
      rfl
    | refused => exact (not_completes_of_refused hb h).elim

end Reading

/-- A text is what its encoding is read as. -/
theorem decode_encode (s : String) : decode (encode s) = s := by
  have hchars (cs : List Char) : Reading.between.chars (cs.flatMap String.utf8EncodeChar) = cs := by
    induction cs with
    | nil => rfl
    | cons c cs ih =>
      rw [List.flatMap_cons, Reading.chars_append_of_completes (Reading.completes_between_iff.mpr rfl), ih]
  rw [decode, encode, hchars, String.ofList_toList]

end GuidedDecoding.Utf8
