import GuidedDecoding.Proofs.Text.Character

/-!
# Offsets into the bytes of a text

A text can be cut only between two of its characters. An offset counts bytes, so most offsets into a text that
is not of the ASCII range are none at which it can be cut (`IsBoundary`), and `slice?` has no answer there
(`exists_slice?_iff`).

A scanner that compares single bytes with characters of the ASCII range need not read the others. At a boundary
the byte tells these characters as the character itself would (`exists_getElem?`), and inside a character there
are only bytes that look like none of them (`exists_getElem?_inside`).
-/

namespace GuidedDecoding.Utf8

def bytesOf (cs : List Char) : Bytes := cs.flatMap String.utf8EncodeChar

@[simp] theorem bytesOf_cons (c : Char) (cs : List Char) :
    bytesOf (c :: cs) = String.utf8EncodeChar c ++ bytesOf cs := rfl

@[simp] theorem bytesOf_append (a b : List Char) : bytesOf (a ++ b) = bytesOf a ++ bytesOf b :=
  List.flatMap_append

@[simp] theorem length_bytesOf (cs : List Char) : (bytesOf cs).length = byteLength cs := by
  have h := length_encode (String.ofList cs)
  rwa [encode, String.toList_ofList] at h

/-! ### Cutting a text -/

/-- Whether a text can be cut at this offset. -/
def IsBoundary (cs : List Char) (k : Nat) : Prop := ∃ front back, cs = front ++ back ∧ byteLength front = k

/-- No boundary is behind the text. -/
theorem IsBoundary.le {cs : List Char} {k : Nat} (h : IsBoundary cs k) : k ≤ byteLength cs := by
  obtain ⟨front, back, rfl, rfl⟩ := h
  rw [byteLength_append]
  exact Nat.le_add_right ..

/-- The first `n` bytes of a text, unless they end inside a character or behind the text. -/
def takeBytes? : Nat → List Char → Option (List Char)
  | 0, _ => some []
  | _ + 1, [] => none
  | n + 1, c :: cs =>
    if c.utf8Size ≤ n + 1 then (takeBytes? (n + 1 - c.utf8Size) cs).map (c :: ·) else none

/-- The text between two offsets, unless they are in the wrong order or one of them is no boundary. -/
def slice? (cs : List Char) (a b : Nat) : Option (List Char) :=
  if a ≤ b then (dropBytes? a cs).bind (takeBytes? (b - a)) else none

theorem byteLength_eq_zero_iff {cs : List Char} : byteLength cs = 0 ↔ cs = [] := by
  constructor
  · intro h
    cases cs with
    | nil => rfl
    | cons c cs =>
      have hc := c.utf8Size_pos
      simp only [byteLength] at h
      omega
  · rintro rfl
    rfl

/-- As many bytes as the first part has make up that part. -/
theorem takeBytes?_byteLength_append (a b : List Char) : takeBytes? (byteLength a) (a ++ b) = some a := by
  induction a with
  | nil => simp [byteLength, takeBytes?]
  | cons c cs ih =>
    obtain ⟨n, hn⟩ : ∃ n, c.utf8Size + byteLength cs = n + 1 :=
      ⟨c.utf8Size + byteLength cs - 1, by have := c.utf8Size_pos; omega⟩
    have hc : c.utf8Size ≤ n + 1 := by omega
    have hrest : n + 1 - c.utf8Size = byteLength cs := by omega
    simp [byteLength, hn, takeBytes?, hc, hrest, ih]

/-- What is taken stands at the front. -/
theorem exists_of_takeBytes? {n : Nat} {cs front : List Char} (h : takeBytes? n cs = some front) :
    ∃ back, cs = front ++ back ∧ byteLength front = n := by
  induction n, cs using takeBytes?.induct generalizing front with
  | case1 cs =>
    obtain rfl : [] = front := by simpa [takeBytes?] using h
    exact ⟨cs, rfl, rfl⟩
  | case2 => cases h
  | case3 n c cs hc ih =>
    rw [takeBytes?, if_pos hc, Option.map_eq_some_iff] at h
    obtain ⟨front, hfront, rfl⟩ := h
    obtain ⟨back, rfl, hlength⟩ := ih hfront
    refine ⟨back, rfl, ?_⟩
    rw [byteLength, hlength]
    omega
  | case4 n c cs hc =>
    rw [takeBytes?, if_neg hc] at h
    cases h

/-- What is dropped stood at the front. -/
theorem exists_of_dropBytes? {n : Nat} {cs back : List Char} (h : dropBytes? n cs = some back) :
    ∃ front, cs = front ++ back ∧ byteLength front = n := by
  induction n, cs using dropBytes?.induct generalizing back with
  | case1 cs =>
    obtain rfl : cs = back := by simpa [dropBytes?] using h
    exact ⟨[], rfl, rfl⟩
  | case2 => cases h
  | case3 n c cs hc ih =>
    rw [dropBytes?, if_pos hc] at h
    obtain ⟨front, rfl, hlength⟩ := ih h
    refine ⟨c :: front, rfl, ?_⟩
    rw [byteLength, hlength]
    omega
  | case4 n c cs hc =>
    rw [dropBytes?, if_neg hc] at h
    cases h

/-- A slice is a part of the text that begins and ends at the given offsets. -/
theorem slice?_eq_some_iff {cs part : List Char} {a b : Nat} :
    slice? cs a b = some part ↔
      ∃ front back, cs = front ++ part ++ back ∧ byteLength front = a ∧ byteLength (front ++ part) = b := by
  constructor
  · intro h
    unfold slice? at h
    split at h
    · obtain ⟨rest, hdrop, htake⟩ := Option.bind_eq_some_iff.mp h
      obtain ⟨front, rfl, hfront⟩ := exists_of_dropBytes? hdrop
      obtain ⟨back, rfl, hpart⟩ := exists_of_takeBytes? htake
      refine ⟨front, back, (List.append_assoc ..).symm, hfront, ?_⟩
      rw [byteLength_append]
      omega
    · cases h
  · rintro ⟨front, back, rfl, rfl, rfl⟩
    rw [slice?, byteLength_append, if_pos (Nat.le_add_right ..), List.append_assoc,
      dropBytes?_byteLength_append, Nat.add_sub_cancel_left]
    exact takeBytes?_byteLength_append ..

/-- A text is cut exactly at boundaries. -/
theorem exists_slice?_iff {cs : List Char} {a b : Nat} :
    (∃ part, slice? cs a b = some part) ↔ a ≤ b ∧ IsBoundary cs a ∧ IsBoundary cs b := by
  simp only [slice?_eq_some_iff]
  constructor
  · rintro ⟨part, front, back, rfl, rfl, rfl⟩
    refine ⟨?_, ⟨front, part ++ back, by simp, rfl⟩, front ++ part, back, rfl, rfl⟩
    rw [byteLength_append]
    exact Nat.le_add_right ..
  · rintro ⟨hle, ⟨front, rest, rfl, rfl⟩, upto, back, h, rfl⟩
    rcases List.append_eq_append_iff.mp h with ⟨part, rfl, rfl⟩ | ⟨part, rfl, rfl⟩
    · exact ⟨part, front, back, by simp, rfl, rfl⟩
    · -- The second cut is not before the first, so there is nothing between them.
      rw [byteLength_append] at hle
      obtain rfl : part = [] := byteLength_eq_zero_iff.mp (by omega)
      exact ⟨[], upto, rest, by simp, by simp, by simp⟩

variable {cs front : List Char}

theorem isBoundary_of_prefix (h : front <+: cs) : IsBoundary cs (byteLength front) := by
  obtain ⟨back, rfl⟩ := h
  exact ⟨front, back, rfl, rfl⟩

/-- A beginning of the text can be sliced off. -/
theorem slice?_of_prefix (h : front <+: cs) : slice? cs 0 (byteLength front) = some front := by
  obtain ⟨back, rfl⟩ := h
  exact slice?_eq_some_iff.mpr ⟨[], back, rfl, rfl, rfl⟩

/-! ### Single bytes -/

def charOf (b : UInt8) : Char := Char.ofNat b.toNat

theorem toNat_charOf (b : UInt8) : (charOf b).toNat = b.toNat := by
  apply Reading.val_ofNat
  have hb := b.toNat_lt
  left
  omega

theorem ne_of_high {c a : Char} (hc : 0x80 ≤ c.toNat) (ha : a.toNat < 0x80) : c ≠ a := by
  rintro rfl
  omega

/-- A byte that tells a character of the ASCII range as well as the character that it begins: it is that character,
or neither of them is in the range. -/
def Tells (b : UInt8) (c : Char) : Prop := charOf b = c ∨ 0x80 ≤ (charOf b).toNat ∧ 0x80 ≤ c.toNat

/-- Such a byte is a character of the ASCII range where the text has it. -/
theorem Tells.eq_iff {b : UInt8} {c a : Char} (h : Tells b c) (ha : a.toNat < 0x80) : charOf b = a ↔ c = a := by
  rcases h with h | ⟨hb, hc⟩
  · rw [h]
  · -- Neither of them is in the range.
    exact iff_of_false (ne_of_high hb ha) (ne_of_high hc ha)

theorem utf8Size_of_ascii {c : Char} (h : c.toNat < 0x80) : c.utf8Size = 1 := by
  rw [Char.utf8Size_eq_one_iff, UInt32.le_iff_toNat_le]
  exact Nat.le_of_lt_succ h

theorem byteLength_concat (cs : List Char) (c : Char) : byteLength (cs ++ [c]) = byteLength cs + c.utf8Size := by
  rw [byteLength_append]
  rfl

variable {back : List Char} {c : Char}

/-- The bytes of a character stand behind those of the characters before it. -/
theorem getElem?_bytesOf (front back : List Char) {k : Nat} (hk : k < c.utf8Size) :
    (bytesOf (front ++ c :: back))[byteLength front + k]? = (String.utf8EncodeChar c)[k]? := by
  rw [bytesOf_append, bytesOf_cons, List.getElem?_append_right, length_bytesOf, Nat.add_sub_cancel_left,
    List.getElem?_append_left]
  · rwa [String.length_utf8EncodeChar]
  · rw [length_bytesOf]
    exact Nat.le_add_right ..

/-- The byte at a boundary tells the character behind it. -/
theorem exists_getElem? (front : List Char) (c : Char) (back : List Char) :
    ∃ b, (bytesOf (front ++ c :: back))[byteLength front]? = some b ∧ Tells b c := by
  have hbyte := getElem?_bytesOf front back c.utf8Size_pos
  rw [Nat.add_zero] at hbyte
  rw [hbyte]
  by_cases hc : c.toNat < 0x80
  · rw [String.utf8EncodeChar_eq_singleton (utf8Size_of_ascii hc)]
    refine ⟨_, rfl, Or.inl ?_⟩
    have hbyte : c.val.toUInt8.toNat = c.toNat := by
      show c.toNat % 256 = c.toNat
      omega
    rw [charOf, hbyte, Char.ofNat_toNat]
  -- a character beyond the ASCII range has no byte within it
  · cases hbytes : String.utf8EncodeChar c with
    | nil =>
      have hlength := String.length_utf8EncodeChar c
      have hpos := c.utf8Size_pos
      rw [hbytes, List.length_nil] at hlength
      omega
    | cons b bs =>
      refine ⟨b, rfl, Or.inr ⟨?_, by omega⟩⟩
      by_contra hb
      rw [toNat_charOf, not_le] at hb
      have hsplit : String.utf8EncodeChar c = [] ++ b :: bs := hbytes
      obtain ⟨-, -, rfl⟩ := Reading.eq_of_encode_ascii hb hsplit
      exact hc (by rw [← toNat_charOf] at hb; exact hb)

/-- Inside a character there is no byte of the ASCII range. -/
theorem exists_getElem?_inside (front back : List Char) {k : Nat} (hk : 0 < k) (hk' : k < c.utf8Size) :
    ∃ b, (bytesOf (front ++ c :: back))[byteLength front + k]? = some b ∧ 0x80 ≤ (charOf b).toNat := by
  rw [getElem?_bytesOf front back hk']
  have hlength : k < (String.utf8EncodeChar c).length := by rwa [String.length_utf8EncodeChar]
  refine ⟨_, List.getElem?_eq_getElem hlength, ?_⟩
  by_contra hb
  rw [toNat_charOf, not_le] at hb
  have hsplit : String.utf8EncodeChar c = (String.utf8EncodeChar c).take k ++
      (String.utf8EncodeChar c)[k] :: (String.utf8EncodeChar c).drop (k + 1) := by
    rw [List.getElem_cons_drop, List.take_append_drop]
  obtain ⟨hnil, -, -⟩ := Reading.eq_of_encode_ascii hb hsplit
  -- So it would be the first byte.
  have htake : ((String.utf8EncodeChar c).take k).length = k := List.length_take_of_le hlength.le
  rw [hnil, List.length_nil] at htake
  omega

/-- A byte of a character is the character or looks like none of the ASCII range. -/
theorem charOf_of_mem {b : UInt8} (h : b ∈ String.utf8EncodeChar c) : charOf b = c ∨ 0x80 ≤ (charOf b).toNat := by
  by_cases hb : b.toNat < 0x80
  · obtain ⟨bs, rest, hbytes⟩ := List.append_of_mem h
    obtain ⟨-, -, rfl⟩ := Reading.eq_of_encode_ascii hb hbytes
    exact Or.inl rfl
  · rw [toNat_charOf]
    exact Or.inr (not_lt.mp hb)

/-- What passes over the bytes that are not of the ASCII range comes from inside a character to its end. -/
theorem eq_behind {α : Type} {f : Nat → α}
    (hf : ∀ i b, (bytesOf cs)[i]? = some b → 0x80 ≤ (charOf b).toNat → f i = f (i + 1))
    (hcs : cs = front ++ c :: back) {k : Nat} (hk : 0 < k) (hk' : k ≤ c.utf8Size) :
    f (byteLength front + k) = f (byteLength (front ++ [c])) := by
  obtain ⟨d, hd⟩ := Nat.exists_eq_add_of_le hk'
  induction d generalizing k with
  | zero => rw [byteLength_concat, hd, Nat.add_zero]
  | succ d ih =>
    obtain ⟨b, hget, hb⟩ := exists_getElem?_inside front back hk (by omega : k < c.utf8Size)
    rw [← hcs] at hget
    rw [hf _ b hget hb]
    exact ih (Nat.succ_pos k) (by omega) (by omega)

end GuidedDecoding.Utf8
