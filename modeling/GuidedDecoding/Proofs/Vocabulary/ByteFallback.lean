import GuidedDecoding.Proofs.Text.Character
import GuidedDecoding.Proofs.Vocabulary.Lexicon

/-!
# Surfaces under byte fallback

A surface in the frame `<0x..>` stands for one byte (`Framed`). What is framed are two bytes, and they are those of
whole characters, since all bytes around them are of the ASCII range (`Framed.exists_middle`). They write a number if
they are two hexadecimal digits (`HexDigit`), and also if they are a plus sign and one digit, because the numeral may
have a sign (`hexPair?_eq_none_iff`).

So the bytes of a vocabulary are known unless a token that is not special frames anything else, and then each token has
the bytes of its surface (`table_of_byteFallback`). A frame around a sign is no token of a byte, but it is read as one
(`table_of_signed`).
-/

namespace GuidedDecoding

namespace SurfaceEncoding

variable {s : String} {a b byte : UInt8} {n high low : ℕ}

/-! ### Digits -/

/-- The byte is the hexadecimal digit of this value, in either case. -/
def HexDigit (b : UInt8) (n : ℕ) : Prop :=
  (Utf8.encode "0123456789abcdef")[n]? = some b ∨ (Utf8.encode "0123456789ABCDEF")[n]? = some b

instance (b : UInt8) (n : ℕ) : Decidable (HexDigit b n) := inferInstanceAs (Decidable (_ ∨ _))

theorem hexDigit_iff :
    HexDigit b n ↔
      [0x30, 0x31, 0x32, 0x33, 0x34, 0x35, 0x36, 0x37, 0x38, 0x39, 0x61, 0x62, 0x63, 0x64, 0x65, 0x66][n]? = some b ∨
      [0x30, 0x31, 0x32, 0x33, 0x34, 0x35, 0x36, 0x37, 0x38, 0x39, 0x41, 0x42, 0x43, 0x44, 0x45, 0x46][n]? = some b :=
  Iff.rfl

/-- There are sixteen digits. -/
theorem HexDigit.lt (h : HexDigit b n) : n < 16 := by
  rcases h with h | h
  · exact (List.getElem?_eq_some_iff.mp h).1
  · exact (List.getElem?_eq_some_iff.mp h).1

theorem hexDigit?_of_hexDigit (h : HexDigit b n) : hexDigit? b = some n.toUInt8 := by
  have hlt := h.lt
  rw [hexDigit_iff] at h
  interval_cases n <;> rcases h with h | h <;> cases h <;> rfl

theorem exists_hexDigit_of_hexDigit? (h : hexDigit? b = some byte) : ∃ n, HexDigit b n := by
  have hall : ∀ n < 256, (hexDigit? n.toUInt8).isSome = true → ∃ m < 16, HexDigit n.toUInt8 m := by
    simp only [hexDigit_iff]
    decide +kernel
  have hb := forall_byte (P := fun b => (hexDigit? b).isSome = true → ∃ m < 16, HexDigit b m) hall b
  obtain ⟨n, -, hdigit⟩ := hb (by rw [h, Option.isSome_some])
  exact ⟨n, hdigit⟩

/-- A byte is a digit if it can be read as one. -/
theorem exists_hexDigit_iff : (∃ n, HexDigit b n) ↔ ∃ digit, hexDigit? b = some digit := by
  constructor
  · rintro ⟨n, h⟩
    exact ⟨_, hexDigit?_of_hexDigit h⟩
  · rintro ⟨digit, h⟩
    exact exists_hexDigit_of_hexDigit? h

theorem hexDigit?_plus : hexDigit? 0x2B = none := by decide

/-- Two digits write the number that they are to the base sixteen. -/
theorem hexPair?_of_digits (ha : HexDigit a high) (hb : HexDigit b low) :
    hexPair? a b = some (high * 16 + low).toUInt8 := by
  have hsum : (high * 16 + low).toUInt8 = high.toUInt8 * 16 + low.toUInt8 := by
    simp [Nat.toUInt8]
  rw [hexPair?, hexDigit?_of_hexDigit ha, hexDigit?_of_hexDigit hb, hsum]

/-- A plus sign and a digit write the digit. -/
theorem hexPair?_of_plus (hb : HexDigit b low) : hexPair? 0x2B b = some low.toUInt8 := by
  rw [hexPair?, hexDigit?_plus, hexDigit?_of_hexDigit hb]
  exact if_pos rfl

/-- Two bytes write no number unless the second one is a digit, and the first one a digit or a plus sign. -/
theorem hexPair?_eq_none_iff :
    hexPair? a b = none ↔
      ¬ ((∃ high, HexDigit a high) ∧ ∃ low, HexDigit b low) ∧ ¬ (a = 0x2B ∧ ∃ low, HexDigit b low) := by
  rw [exists_hexDigit_iff, exists_hexDigit_iff, hexPair?]
  cases hexDigit? b with
  | none => cases hexDigit? a <;> simp
  | some low => cases hexDigit? a <;> simp

/-! ### The frame -/

/-- The surface has six bytes, and `<0x` and `>` frame these two. -/
def Framed (s : String) (a b : UInt8) : Prop := Utf8.encode s = [0x3C, 0x30, 0x78, a, b, 0x3E]

instance (s : String) (a b : UInt8) : Decidable (Framed s a b) := inferInstanceAs (Decidable (_ = _))

/-- The middle of a frame is read where there is a frame. -/
theorem frame?_eq_some_iff : frame? (Utf8.encode s) = some (a, b) ↔ Framed s a b := by
  rw [Framed]
  generalize Utf8.encode s = bs
  constructor
  · intro h
    unfold frame? at h
    split at h
    · split at h
      · next heq =>
        obtain ⟨rfl, rfl, rfl, rfl⟩ := heq
        cases h
        rfl
      · cases h
    · cases h
  · rintro rfl
    rfl

theorem frame?_eq_none_iff : frame? (Utf8.encode s) = none ↔ ∀ a b, ¬ Framed s a b := by
  simp only [Option.eq_none_iff_forall_ne_some, Prod.forall, Ne, frame?_eq_some_iff]

theorem eq_nil_of_encode {cs : List Char} (h : cs.flatMap String.utf8EncodeChar = []) : cs = [] := by
  rw [List.flatMap_eq_nil_iff] at h
  exact List.eq_nil_iff_forall_not_mem.mpr fun c hc => String.utf8EncodeChar_ne_nil (h c hc)

/-- The first byte of some characters is one of these if it is of the ASCII range. -/
theorem exists_of_encode_cons {cs : List Char} {rest : Bytes} (hb : b.toNat < 0x80)
    (h : cs.flatMap String.utf8EncodeChar = b :: rest) :
    ∃ back, cs = Char.ofNat b.toNat :: back ∧ back.flatMap String.utf8EncodeChar = rest := by
  have hcons : cs.flatMap String.utf8EncodeChar = [] ++ b :: rest := h
  obtain ⟨front, back, rfl, hfront, hback⟩ := Utf8.Reading.exists_of_encode_ascii hb hcons
  obtain rfl := eq_nil_of_encode hfront
  exact ⟨back, rfl, hback⟩

/-- What is framed are the bytes of whole characters. -/
theorem Framed.exists_middle (h : Framed s a b) :
    ∃ middle, s.toList = ['<', '0', 'x'] ++ middle ++ ['>'] ∧ middle.flatMap String.utf8EncodeChar = [a, b] := by
  obtain ⟨cs, hs, hcs⟩ := exists_of_encode_cons (by decide) h
  obtain ⟨ds, hcons, hds⟩ := exists_of_encode_cons (by decide) hcs
  obtain ⟨es, hcons', hes⟩ := exists_of_encode_cons (by decide) hds
  have hlast : es.flatMap String.utf8EncodeChar = [a, b] ++ 0x3E :: [] := hes
  obtain ⟨middle, back, rfl, hmiddle, hback⟩ := Utf8.Reading.exists_of_encode_ascii (by decide) hlast
  obtain rfl := eq_nil_of_encode hback
  rw [hs, hcons, hcons']
  exact ⟨middle, rfl, hmiddle⟩

theorem byteLength_eq (cs : List Char) : Utf8.byteLength cs = (cs.flatMap String.utf8EncodeChar).length := by
  have hlength := Utf8.length_encode (String.ofList cs)
  rw [Utf8.encode, String.toList_ofList] at hlength
  exact hlength.symm

/-- A surface is framed if it has six bytes, begins with `<0x` and ends with `>`. -/
theorem exists_framed_iff :
    (∃ a b, Framed s a b) ↔ Utf8.byteLength s.toList = 6 ∧ ['<', '0', 'x'] <+: s.toList ∧ ['>'] <:+ s.toList := by
  constructor
  · rintro ⟨a, b, h⟩
    obtain ⟨middle, hs, hmiddle⟩ := h.exists_middle
    refine ⟨?_, ⟨middle ++ ['>'], by rw [hs, List.append_assoc]⟩, ⟨['<', '0', 'x'] ++ middle, hs.symm⟩⟩
    rw [byteLength_eq]
    exact congrArg List.length h
  -- the frame takes four of the six bytes, so two are left between its halves
  · rintro ⟨hlength, ⟨rest, hrest⟩, ⟨front, hfront⟩⟩
    rw [← hrest, Utf8.byteLength_append] at hlength
    rcases List.eq_nil_or_concat rest with rfl | ⟨middle, c, rfl⟩
    · exact absurd hlength (by decide)
    rw [List.concat_eq_append, Utf8.byteLength_append] at hlength
    rw [← hrest, List.concat_eq_append, ← List.append_assoc] at hfront
    obtain ⟨-, hlast⟩ := List.append_inj' hfront rfl
    obtain rfl : '>' = c := List.head_eq_of_cons_eq hlast
    have hopening : Utf8.byteLength ['<', '0', 'x'] = 3 := rfl
    have hclosing : Utf8.byteLength ['>'] = 1 := rfl
    obtain ⟨a, b, hmiddle⟩ : ∃ a b, middle.flatMap String.utf8EncodeChar = [a, b] := by
      rw [← List.length_eq_two, ← byteLength_eq]
      omega
    refine ⟨a, b, ?_⟩
    rw [Framed, Utf8.encode, ← hrest, List.concat_eq_append, List.flatMap_append, List.flatMap_append, hmiddle]
    rfl

/-! ### The bytes of a surface -/

theorem encode_spaced (s : String) :
    Utf8.encode (spaced s) = s.toList.flatMap fun c => if c = '\u2581' then [0x20] else String.utf8EncodeChar c := by
  rw [Utf8.encode, spaced, String.toList_ofList, List.flatMap_map]
  congr 1
  funext c
  split <;> rfl

/-- A frame around a number stands for that byte. -/
theorem fallbackBytes_of_pair (h : Framed s a b) (hpair : hexPair? a b = some byte) :
    fallbackBytes s = .ok [byte] := by
  simp only [fallbackBytes, frame?_eq_some_iff.mpr h, hpair]

/-- Around anything else it stands for nothing, and the surface cannot be read. -/
theorem fallbackBytes_of_no_pair (h : Framed s a b) (hpair : hexPair? a b = none) : fallbackBytes s = .error ⟨s⟩ := by
  simp only [fallbackBytes, frame?_eq_some_iff.mpr h, hpair]

/-- Without a frame a surface is its own text, with spaces for word marks. -/
theorem fallbackBytes_of_unframed (h : ∀ a b, ¬ Framed s a b) :
    fallbackBytes s = .ok (s.toList.flatMap fun c => if c = '\u2581' then [0x20] else String.utf8EncodeChar c) := by
  rw [fallbackBytes, frame?_eq_none_iff.mpr h, encode_spaced]

/-- What a surface stands for under byte fallback. -/
structure StandsFor (s : String) (bytes : Bytes) : Prop where
  /-- Two digits in the frame write a byte. -/
  digits : ∀ a b high low, Framed s a b → HexDigit a high → HexDigit b low → bytes = [(high * 16 + low).toUInt8]
  /-- A plus sign and a digit do so too. -/
  signed : ∀ b low, Framed s 0x2B b → HexDigit b low → bytes = [low.toUInt8]
  /-- Without the frame the surface is text, in which word marks are spaces. -/
  text : (∀ a b, ¬ Framed s a b) →
    bytes = s.toList.flatMap fun c => if c = '\u2581' then [0x20] else String.utf8EncodeChar c

theorem standsFor_of_bytes {bytes : Bytes} (h : fallbackBytes s = .ok bytes) : StandsFor s bytes where
  digits a b high low hframed ha hb := by
    rw [fallbackBytes_of_pair hframed (hexPair?_of_digits ha hb)] at h
    exact (Except.ok.inj h).symm
  signed b low hframed hb := by
    rw [fallbackBytes_of_pair hframed (hexPair?_of_plus hb)] at h
    exact (Except.ok.inj h).symm
  text hunframed := by
    rw [fallbackBytes_of_unframed hunframed] at h
    exact (Except.ok.inj h).symm

/-- A surface stands for no bytes if it frames something else. -/
theorem not_exists_bytes_iff :
    (¬ ∃ bytes, fallbackBytes s = .ok bytes) ↔
      ∃ a b, Framed s a b ∧ ¬ ((∃ high, HexDigit a high) ∧ ∃ low, HexDigit b low) ∧
        ¬ (a = 0x2B ∧ ∃ low, HexDigit b low) := by
  simp only [← hexPair?_eq_none_iff]
  constructor
  · intro hnone
    by_cases hframed : ∃ a b, Framed s a b
    · obtain ⟨a, b, h⟩ := hframed
      refine ⟨a, b, h, ?_⟩
      by_contra hpair
      obtain ⟨byte, hbyte⟩ := Option.ne_none_iff_exists'.mp hpair
      exact hnone ⟨[byte], fallbackBytes_of_pair h hbyte⟩
    · push Not at hframed
      exact absurd ⟨_, fallbackBytes_of_unframed hframed⟩ hnone
  · rintro ⟨a, b, h, hpair⟩ ⟨bytes, hbytes⟩
    rw [fallbackBytes_of_no_pair h hpair] at hbytes
    cases hbytes

end SurfaceEncoding

namespace Lexicon

open SurfaceEncoding

variable {l : Lexicon} {table : Array Bytes}

/-- There are no bytes exactly if some surface that needs some stands for none. -/
theorem exists_table_error_iff :
    (∃ e, l.table = .error e) ↔ ∃ (i : ℕ) (s : String), l.vocabulary.surfaces[i]? = some s ∧
      l.isSpecial i.toUInt32 = false ∧ ¬ ∃ bytes, l.encoding.bytes s = .ok bytes := by
  have hreadable := exists_table_iff (l := l)
  have hfails : (∃ e, l.table = .error e) ↔ ¬ ∃ table, l.table = .ok table := by
    cases l.table <;> simp
  rw [hfails, hreadable, Readable]
  push Not
  rfl

/-- Under byte fallback the bytes of a vocabulary are unknown exactly if some token that is not special frames
something other than two hexadecimal digits, or a plus sign and one. Otherwise each token that is not special has what
its surface stands for. What is taken out of a surface of six bytes between `<0x` and `>` are whole characters. -/
theorem table_of_byteFallback (hl : l.encoding = .byteFallback) :
    ((∃ e, l.table = .error e) ↔
      ∃ (i : ℕ) (s : String) (a b : UInt8), l.vocabulary.surfaces[i]? = some s ∧ l.isSpecial i.toUInt32 = false ∧
        Framed s a b ∧ ¬ ((∃ high, HexDigit a high) ∧ ∃ low, HexDigit b low) ∧
        ¬ (a = 0x2B ∧ ∃ low, HexDigit b low)) ∧
      (∀ table, l.table = .ok table → ∀ (i : ℕ) (s : String), l.vocabulary.surfaces[i]? = some s →
        l.isSpecial i.toUInt32 = false → ∃ bytes, table[i]? = some bytes ∧ StandsFor s bytes) ∧
      ∀ s : String, Utf8.byteLength s.toList = 6 → ['<', '0', 'x'] <+: s.toList → ['>'] <:+ s.toList →
        ∃ a b middle, Framed s a b ∧ Utf8.dropBytes? 3 s.toList = some (middle ++ ['>']) ∧
          Utf8.dropBytes? 5 s.toList = some ['>'] ∧ middle.flatMap String.utf8EncodeChar = [a, b] := by
  refine ⟨?_, ?_, ?_⟩
  · rw [exists_table_error_iff, hl]
    simp only [SurfaceEncoding.bytes, not_exists_bytes_iff, exists_and_left]
  · intro table ht i s hs hspecial
    obtain ⟨bytes, hentry, hbytes⟩ := table_slot ht hs
    rw [bytesOf, hspecial, hl] at hbytes
    exact ⟨bytes, hentry, standsFor_of_bytes hbytes⟩
  · intro s hlength hopening hclosing
    obtain ⟨a, b, h⟩ := exists_framed_iff.mpr ⟨hlength, hopening, hclosing⟩
    obtain ⟨middle, hs, hmiddle⟩ := h.exists_middle
    have hfront : Utf8.byteLength (['<', '0', 'x'] ++ middle) = 5 := by
      rw [Utf8.byteLength_append, byteLength_eq middle, hmiddle]
      rfl
    refine ⟨a, b, middle, h, ?_, ?_, hmiddle⟩
    · rw [hs, List.append_assoc]
      exact Utf8.dropBytes?_byteLength_append ['<', '0', 'x'] _
    · rw [hs, ← hfront]
      exact Utf8.dropBytes?_byteLength_append _ ['>']

def framedVocabulary : Lexicon :=
  { (Lexicon.ofSurfaces ["<0x0A>", "▁hi", "<0xZZ>", "<0x0A0>"] []).withSpecial [2] with encoding := .byteFallback }

/-- The digits `0` and `A` write a newline, and the bytes of all tokens are known. -/
theorem table_of_byteFallback_newline : ∃ table, framedVocabulary.table = .ok table ∧ table[0]? = some [0x0A] := by
  have htable : framedVocabulary.table =
      .ok #[[0x0A], [0x20, 0x68, 0x69], [], [0x3C, 0x30, 0x78, 0x30, 0x41, 0x30, 0x3E]] := by
    cbv
  obtain ⟨-, hentries, -⟩ := table_of_byteFallback (l := framedVocabulary) rfl
  obtain ⟨bytes, hentry, hbytes⟩ := hentries _ htable 0 "<0x0A>" rfl (by decide)
  have hframed : Framed "<0x0A>" 0x30 0x41 := by decide
  have hnewline := hbytes.digits 0x30 0x41 0 10 hframed (by decide) (by decide)
  rw [hnewline] at hentry
  exact ⟨_, htable, hentry⟩

/-- What is framed is no pair of digits, and still the bytes of the vocabulary are known: the token has that of `5`. -/
theorem table_of_signed :
    ∃ l : Lexicon, l.encoding = .byteFallback ∧ l.vocabulary.surfaces[0]? = some "<0x+5>" ∧ l.isSpecial 0 = false ∧
      Framed "<0x+5>" 0x2B 0x35 ∧ (¬ ∃ high, HexDigit 0x2B high) ∧ l.table = .ok #[[0x05]] := by
  refine ⟨{ Lexicon.ofSurfaces ["<0x+5>"] [] with encoding := .byteFallback }, rfl, rfl, rfl, by decide, ?_, by cbv⟩
  rw [exists_hexDigit_iff, hexDigit?_plus]
  simp

end Lexicon
end GuidedDecoding
