import GuidedDecoding.Proofs.Text.Character
import GuidedDecoding.Proofs.Vocabulary.Lexicon

/-!
# Texts at byte level

At byte level a text is written with one character for each of its bytes (`image`): a printable byte is its own
character, and the others have the characters from code point 256 on, in ascending order (`levelChar`). Reading goes
back from character to byte (`levelByte?_levelChar`), so that the image of some bytes stands for these bytes, in
whatever pieces it is written, and a piece may end inside a character.

Tokens that write such pieces, with any others between them that are silent (`Writes`), are decoded to the text
(`decode_of_writes`).
-/

namespace GuidedDecoding

namespace SurfaceEncoding

/-- The byte has a character of its own, from `!` to `~`, from `¡` to `¬` or from `®` to `ÿ`. -/
def isPrintable (b : UInt8) : Bool :=
  ('!'.toNat ≤ b.toNat && b.toNat ≤ '~'.toNat) || ('¡'.toNat ≤ b.toNat && b.toNat ≤ '¬'.toNat) ||
    ('®'.toNat ≤ b.toNat && b.toNat ≤ 'ÿ'.toNat)

def unprintableBelow (b : UInt8) : ℕ := (List.range b.toNat).countP fun n => !isPrintable n.toUInt8

def levelChar (b : UInt8) : Char :=
  if isPrintable b then Char.ofNat b.toNat else Char.ofNat (256 + unprintableBelow b)

/-- The characters that some bytes are written with. -/
def image (bs : Bytes) : List Char := bs.map levelChar

/-- The character of a byte stands for that byte. -/
theorem levelByte?_levelChar (b : UInt8) : levelByte? (levelChar b) = some b :=
  forall_byte (P := fun b => levelByte? (levelChar b) = some b) (by decide +kernel) b

/-- The image of some bytes stands for these. -/
theorem flatMap_image (bs : Bytes) : (image bs).flatMap levelBytes = bs := by
  induction bs with
  | nil => rfl
  | cons b bs ih =>
    rw [image, List.map_cons, List.flatMap_cons, levelBytes, levelByte?_levelChar]
    exact congrArg (b :: ·) ih

end SurfaceEncoding

namespace Lexicon

open SurfaceEncoding

variable {l : Lexicon} {table : Array Bytes} {id : TokenId} {ids : List TokenId} {pieces : List String}

/-- The id adds nothing to a text: it is that of a stop token or of a special one, or there is no such token. -/
def Silent (l : Lexicon) (id : TokenId) : Prop :=
  id ∈ l.stop ∨ l.isSpecial id = true ∨ l.vocabulary.surface? id = none

/-- The ids are those of tokens with these surfaces, and silent ones between them. -/
inductive Writes (l : Lexicon) : List String → List TokenId → Prop
  | nil : Writes l [] []
  | piece {id : TokenId} {s : String} {pieces : List String} {ids : List TokenId}
      (hs : l.vocabulary.surface? id = some s) (hstop : id ∉ l.stop) (hspecial : l.isSpecial id = false)
      (rest : Writes l pieces ids) : Writes l (s :: pieces) (id :: ids)
  | silent {id : TokenId} {pieces : List String} {ids : List TokenId} (hsilent : l.Silent id)
      (rest : Writes l pieces ids) : Writes l pieces (id :: ids)

/-- A silent id contributes nothing. -/
theorem contribution_of_silent (ht : l.table = .ok table) (h : l.Silent id) : l.contribution table id = [] := by
  by_cases hstop : id ∈ l.stop
  · exact contribution_of_isStop (isStop_iff.mpr hstop)
  cases hs : l.vocabulary.surface? id with
  | none => exact contribution_of_none ht hs
  | some s =>
    have hspecial : l.isSpecial id = true := by simpa [Silent, hstop, hs] using h
    obtain ⟨bytes, hentry, hbytes⟩ := table_entry ht hs
    rw [bytesOf, if_pos hspecial] at hbytes
    cases hbytes
    exact contribution_of_not_isStop (isStop_eq_false hstop) hentry

/-- At byte level every surface stands for some bytes. -/
theorem exists_table_of_byteLevel (h : l.encoding = .byteLevel) : ∃ table, l.table = .ok table := by
  apply exists_table
  intro s _
  rw [h]
  exact ⟨_, rfl⟩

/-- What tokens contribute at byte level is what the characters of their surfaces stand for. -/
theorem flatMap_contribution (hl : l.encoding = .byteLevel) (ht : l.table = .ok table) (h : l.Writes pieces ids) :
    ids.flatMap (l.contribution table) = (pieces.flatMap String.toList).flatMap levelBytes := by
  induction h with
  | nil => rfl
  | piece hs hstop hspecial _ ih =>
    obtain ⟨bytes, hentry, hbytes⟩ := table_entry ht hs
    rw [bytesOf, hspecial, hl] at hbytes
    cases hbytes
    rw [List.flatMap_cons, List.flatMap_cons, List.flatMap_append, ih,
      contribution_of_not_isStop (isStop_eq_false hstop) hentry]
  | silent hsilent _ ih => rw [List.flatMap_cons, contribution_of_silent ht hsilent, List.nil_append, ih]

/-- Tokens at byte level whose surfaces make up the image of a text are decoded to it, wherever the image is cut and
whatever silent ids stand between them. -/
theorem decode_of_writes (hl : l.encoding = .byteLevel) (s : String)
    (hcut : pieces.flatMap String.toList = image (Utf8.encode s)) (hids : l.Writes pieces ids) :
    l.decode ids = .ok s := by
  obtain ⟨table, ht⟩ := exists_table_of_byteLevel hl
  rw [decode, decoder, ht]
  dsimp only
  rw [flatMap_contribution hl ht hids, hcut, flatMap_image, Utf8.decode_encode]

def cutVocabulary : Lexicon :=
  { (Lexicon.ofSurfaces ["Ã", "©Ġ", "</s>", "<s>"] [2]).withSpecial [3] with encoding := .byteLevel }

/-- The two tokens are decoded to the text, with a special token, an id without a slot and a stop token around them. -/
theorem decode_of_writes_cut :
    cutVocabulary.Writes ["Ã", "©Ġ"] [0, 3, 9, 1, 2] ∧ cutVocabulary.decode [0, 3, 9, 1, 2] = .ok "é " := by
  have hcut : ["Ã", "©Ġ"].flatMap String.toList = image (Utf8.encode "é ") := by decide +kernel
  have hids : cutVocabulary.Writes ["Ã", "©Ġ"] [0, 3, 9, 1, 2] :=
    .piece rfl (by decide) (by decide) <| .silent (Or.inr (Or.inl (by decide))) <|
      .silent (Or.inr (Or.inr rfl)) <| .piece rfl (by decide) (by decide) <| .silent (Or.inl (by decide)) .nil
  exact ⟨hids, decode_of_writes rfl "é " hcut hids⟩

end Lexicon
end GuidedDecoding
