import GuidedDecoding.Vocabulary.Lexicon
import Mathlib

/-!
# The bytes of a lexicon

The table of a lexicon has one entry for each slot of the vocabulary, and that entry is what the surface of
the slot stands for (`table_entry`). There is one exactly if the lexicon is `Readable`, and otherwise the failure
names a surface that stands for nothing (`table_eq_error`). A surface that is not empty stands for at least one byte
under every encoding (`bytes_ne_nil`), so only special tokens and empty slots are without bytes.
-/

namespace GuidedDecoding

/-- Mapping a list succeeds exactly when it does so at every element. -/
theorem mapM_eq_ok_iff {ε α β : Type} {f : α → Except ε β} {xs : List α} {ys : List β} :
    xs.mapM f = .ok ys ↔ List.Forall₂ (fun x y => f x = .ok y) xs ys := by
  induction xs generalizing ys with
  | nil => simp [pure, Except.pure, eq_comm]
  | cons x xs ih =>
    rw [List.mapM_cons, List.forall₂_cons_left_iff]
    cases hx : f x with
    | error e => simp [bind, Except.bind]
    | ok y =>
      cases hxs : xs.mapM f with
      | error e =>
        have hnone : ∀ zs, ¬ List.Forall₂ (fun x y => f x = .ok y) xs zs := fun zs h => by
          rw [← ih, hxs] at h
          cases h
        simp [bind, Except.bind, hnone]
      | ok zs =>
        have hzs : ∀ us, List.Forall₂ (fun x y => f x = .ok y) xs us ↔ us = zs := fun us => by
          rw [← ih, hxs, Except.ok.injEq, eq_comm]
        simp [bind, Except.bind, pure, Except.pure, hzs, eq_comm]

/-- Mapping a list fails with the failure of one of its elements. -/
theorem exists_of_mapM_eq_error {ε α β : Type} {f : α → Except ε β} {xs : List α} {e : ε}
    (h : xs.mapM f = .error e) : ∃ x ∈ xs, f x = .error e := by
  induction xs with
  | nil => cases h
  | cons x xs ih =>
    rw [List.mapM_cons] at h
    -- the first failure on the way is that of the whole
    cases hx : f x with
    | error e' =>
      rw [hx] at h
      cases h
      exact ⟨x, List.mem_cons_self, hx⟩
    | ok y =>
      rw [hx] at h
      cases hxs : xs.mapM f with
      | error e' =>
        rw [hxs] at h
        cases h
        obtain ⟨z, hz, hfail⟩ := ih hxs
        exact ⟨z, List.mem_cons_of_mem x hz, hfail⟩
      | ok ys =>
        rw [hxs] at h
        cases h

namespace SurfaceEncoding

/-- What holds of the numbers below 256 holds of all bytes. -/
theorem forall_byte {P : UInt8 → Prop} (h : ∀ n < 256, P n.toUInt8) (b : UInt8) : P b := by
  have hb := h b.toNat b.toNat_lt
  rwa [Nat.toUInt8, UInt8.ofNat_toNat] at hb

/-- No character stands for nothing at byte level. -/
theorem levelBytes_ne_nil (c : Char) : levelBytes c ≠ [] := by
  unfold levelBytes
  split
  · exact List.cons_ne_nil _ _
  · exact String.utf8EncodeChar_ne_nil

/-- Characters that each give bytes give some together. -/
theorem flatMap_ne_nil {f : Char → Bytes} (hf : ∀ c, f c ≠ []) {s : String} (hs : s.isEmpty = false) :
    s.toList.flatMap f ≠ [] := by
  cases hcs : s.toList with
  | nil =>
    have hempty : s = "" := String.toList_eq_nil_iff.mp hcs
    rw [hempty] at hs
    cases hs
  | cons c cs =>
    intro h
    rw [List.flatMap_cons] at h
    exact hf c (List.append_eq_nil_iff.mp h).1

/-- A surface that is not empty stands for at least one byte. -/
theorem bytes_ne_nil {e : SurfaceEncoding} {s : String} {bs : Bytes} (hs : s.isEmpty = false)
    (h : e.bytes s = .ok bs) : bs ≠ [] := by
  cases e with
  | plain =>
    cases h
    exact flatMap_ne_nil (fun _ => String.utf8EncodeChar_ne_nil) hs
  | byteLevel =>
    cases h
    exact flatMap_ne_nil levelBytes_ne_nil hs
  | byteFallback =>
    simp only [bytes, fallbackBytes] at h
    split at h
    · split at h
      · cases h
        exact List.cons_ne_nil _ _
      · cases h
    · cases h
      -- Turning marks into spaces leaves as many characters.
      have hspaced : (spaced s).isEmpty = false := by
        rw [spaced, String.isEmpty_eq_false_iff]
        intro hempty
        have hnil := congrArg String.toList hempty
        rw [String.toList_ofList] at hnil
        have htoList : s.toList = [] := List.map_eq_nil_iff.mp hnil
        rw [String.toList_eq_nil_iff.mp htoList] at hs
        cases hs
      exact flatMap_ne_nil (fun _ => String.utf8EncodeChar_ne_nil) hspaced

end SurfaceEncoding

namespace Lexicon

variable {l : Lexicon} {table : Array Bytes}

/-! ### What a token contributes -/

theorem isStop_iff {id : TokenId} : l.isStop id = true ↔ id ∈ l.stop := decide_eq_true_iff

theorem isStop_eq_false {id : TokenId} (h : id ∉ l.stop) : l.isStop id = false :=
  Bool.eq_false_iff.mpr (mt isStop_iff.mp h)

/-- A stop token contributes nothing to a text. -/
theorem contribution_of_isStop {id : TokenId} (h : l.isStop id = true) : l.contribution table id = [] := by
  rw [contribution, h, if_pos rfl]

/-- Any other token contributes the bytes of the table. -/
theorem contribution_of_not_isStop {id : TokenId} {bytes : Bytes} (h : l.isStop id = false)
    (hb : table[id.toNat]? = some bytes) : l.contribution table id = bytes := by
  rw [contribution, h, hb]
  rfl

/-! ### The bytes of all tokens -/

/-- The table lists what each slot stands for. -/
theorem table_forall₂ (h : l.table = .ok table) :
    List.Forall₂ (fun p bytes => l.bytesOf p.2.toUInt32 p.1 = .ok bytes)
      l.vocabulary.surfaces.zipIdx.toList table.toList := by
  unfold Lexicon.table at h
  split at h
  · next entries hm =>
    cases h
    have hlist := congrArg (Functor.map Array.toList) hm
    rw [Array.toList_mapM] at hlist
    exact mapM_eq_ok_iff.mp hlist
  · cases h

/-- The table has one entry for each slot. -/
theorem size_table (h : l.table = .ok table) : table.size = l.size := by
  have hlength := (table_forall₂ h).length_eq
  simpa [Lexicon.size, Vocabulary.size] using hlength.symm

/-- The entry of a slot is what its surface stands for. -/
theorem table_slot (h : l.table = .ok table) {i : Nat} {s : String} (hs : l.vocabulary.surfaces[i]? = some s) :
    ∃ bytes, table[i]? = some bytes ∧ l.bytesOf i.toUInt32 s = .ok bytes := by
  obtain ⟨hlt, hget⟩ := Array.getElem?_eq_some_iff.mp hs
  have hbound : i < table.size := by
    rw [size_table h]
    exact hlt
  have hentry := (List.forall₂_iff_get.mp (table_forall₂ h)).2 i (by simpa using hlt) (by simpa using hbound)
  refine ⟨table[i], Array.getElem?_eq_getElem hbound, ?_⟩
  simpa [hget] using hentry

/-- The entry of a token is what its surface stands for. -/
theorem table_entry (h : l.table = .ok table) {id : TokenId} {s : String}
    (hs : l.vocabulary.surface? id = some s) :
    ∃ bytes, table[id.toNat]? = some bytes ∧ l.bytesOf id s = .ok bytes := by
  obtain ⟨bytes, hentry, hbytes⟩ := table_slot h hs
  rw [Nat.toUInt32, UInt32.ofNat_toNat] at hbytes
  exact ⟨bytes, hentry, hbytes⟩

/-- An id without a slot contributes nothing. -/
theorem contribution_of_none (ht : l.table = .ok table) {id : TokenId} (h : l.vocabulary.surface? id = none) :
    l.contribution table id = [] := by
  have hbehind : table[id.toNat]? = none := by
    rw [Array.getElem?_eq_none_iff, size_table ht]
    exact Array.getElem?_eq_none_iff.mp h
  rw [contribution, hbehind, Option.getD_none, ite_self]

/-- Every token that is not special has bytes under the encoding. -/
def Readable (l : Lexicon) : Prop :=
  ∀ (i : Nat) (s : String), l.vocabulary.surfaces[i]? = some s → l.isSpecial i.toUInt32 = false →
    ∃ bytes, l.encoding.bytes s = .ok bytes

/-- The surface has no bytes, and it is that of a token that needs some. -/
def Misspelt (l : Lexicon) (cause : UnreadableSurface) : Prop :=
  ∃ (i : Nat) (s : String), l.vocabulary.surfaces[i]? = some s ∧ l.isSpecial i.toUInt32 = false ∧
    l.encoding.bytes s = .error cause

theorem mem_zipIdx_surfaces {q : String × Nat} :
    q ∈ l.vocabulary.surfaces.zipIdx.toList ↔ l.vocabulary.surfaces[q.2]? = some q.1 := by
  rw [Array.toList_zipIdx, List.mem_zipIdx_iff_getElem?, Array.getElem?_toList]

/-- The bytes of the tokens are unknown because some token that is not special has none. -/
theorem table_eq_error {e : Failure} (h : l.table = .error e) :
    ∃ cause, e = .setup (.unreadableVocabulary l.encoding cause) ∧ l.Misspelt cause := by
  unfold Lexicon.table at h
  split at h
  · cases h
  · next cause hm =>
    cases h
    have hlist := congrArg (Functor.map Array.toList) hm
    rw [Array.toList_mapM] at hlist
    obtain ⟨⟨s, i⟩, hq, hfail⟩ := exists_of_mapM_eq_error hlist
    refine ⟨cause, rfl, i, s, mem_zipIdx_surfaces.mp hq, ?_⟩
    dsimp only at hfail
    cases hspecial : l.isSpecial i.toUInt32 with
    | true =>
      -- A special token has no bytes, which is no failure.
      rw [bytesOf, if_pos hspecial] at hfail
      cases hfail
    | false =>
      rw [bytesOf, hspecial] at hfail
      exact ⟨rfl, hfail⟩

/-- The bytes of all tokens are known exactly if each token that is not special has some. -/
theorem exists_table_iff : (∃ table, l.table = .ok table) ↔ l.Readable := by
  constructor
  · rintro ⟨table, ht⟩ i s hs hspecial
    obtain ⟨bytes, -, hbytes⟩ := table_slot ht hs
    rw [bytesOf, hspecial] at hbytes
    exact ⟨bytes, hbytes⟩
  · intro h
    cases ht : l.table with
    | ok table => exact ⟨table, rfl⟩
    | error e =>
      obtain ⟨cause, -, i, s, hs, hspecial, hfail⟩ := table_eq_error ht
      obtain ⟨bytes, hok⟩ := h i s hs hspecial
      cases hfail.symm.trans hok

/-- A vocabulary is usable if all its surfaces can be read. -/
theorem exists_table (h : ∀ s ∈ l.vocabulary.surfaces, ∃ bytes, l.encoding.bytes s = .ok bytes) :
    ∃ table, l.table = .ok table :=
  exists_table_iff.mpr fun _ s hs _ => h s (Array.mem_of_getElem? hs)

/-- A special token has no bytes. -/
theorem bytesOf_special {id : TokenId} (h : id ∈ l.special) (s : String) : l.bytesOf id s = .ok [] := by
  have hspecial : l.isSpecial id = true := by simpa [isSpecial] using h
  rw [bytesOf, if_pos hspecial]

/-- Only a special token and an empty slot are without bytes. -/
theorem bytesOf_ne_nil {id : TokenId} {s : String} {bs : Bytes} (hid : l.isSpecial id = false)
    (hs : s.isEmpty = false) (h : l.bytesOf id s = .ok bs) : bs ≠ [] := by
  rw [bytesOf, hid] at h
  exact SurfaceEncoding.bytes_ne_nil hs h

end Lexicon
end GuidedDecoding
