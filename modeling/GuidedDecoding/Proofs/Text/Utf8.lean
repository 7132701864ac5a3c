import GuidedDecoding.Text.Utf8
import Mathlib

/-!
# Reading bytes in parts, and reading back what was written

A reader of bytes stands between characters or inside one, and what it makes of further bytes depends on
that alone (`chars_append`). So the text of some bytes is the beginning of the text of all of them as soon as
the reader stands between characters, which it does unless the text ends in a replacement character
(`after_eq_between`).

A character that is completed is the one whose encoding the bytes are (`encode_of_accept`). So bytes of which
none is refused are those of the text they are read as (`encode_decode`), and a line feed is completed by the
byte of a line feed alone (`after_append_newline`).
-/

namespace GuidedDecoding.Utf8
namespace Reading

/-! ### Reading in parts -/

def after (r : Reading) (bs : Bytes) : Reading := bs.foldl (fun r b => (r.step b).1) r

def completed : Reading → Bytes → List Char
  | _, [] => []
  | r, b :: bs => (r.step b).2 ++ (r.step b).1.completed bs

@[simp] theorem after_nil (r : Reading) : r.after [] = r := rfl

@[simp] theorem after_cons (r : Reading) (b : UInt8) (bs : Bytes) :
    r.after (b :: bs) = (r.step b).1.after bs := rfl

/-- Reading can be done in two parts. -/
theorem after_append (r : Reading) (a b : Bytes) : r.after (a ++ b) = (r.after a).after b :=
  List.foldl_append

/-- The text of some bytes: the characters that they complete, and the one that they break off. -/
theorem chars_eq (r : Reading) (bs : Bytes) : r.chars bs = r.completed bs ++ (r.after bs).finish := by
  induction bs generalizing r with
  | nil => rfl
  | cons b bs ih => rw [chars, completed, ih, after_cons, List.append_assoc]

/-- Bytes that come later are read from where the earlier ones end. -/
theorem chars_append (r : Reading) (a b : Bytes) :
    r.chars (a ++ b) = r.completed a ++ (r.after a).chars b := by
  induction a generalizing r with
  | nil => rfl
  | cons x a ih => rw [List.cons_append, chars, completed, ih, after_cons, List.append_assoc]

/-- Behind bytes that end between characters the text goes on with that of the bytes that follow. -/
theorem chars_append_of_between {r : Reading} {a : Bytes} (h : r.after a = .between) (b : Bytes) :
    r.chars (a ++ b) = r.chars a ++ Reading.between.chars b := by
  rw [chars_append, chars_eq r a, h, finish, List.append_nil]

/-- A text that does not end in a replacement character ends between characters. -/
theorem after_eq_between {r : Reading} {bs : Bytes} (h : (r.chars bs).getLast? ≠ some replacement) :
    r.after bs = .between := by
  rw [chars_eq] at h
  cases hr : r.after bs with
  | between => rfl
  | inside =>
    rw [hr, finish] at h
    exact absurd List.getLast?_concat h

/-! ### What one byte does -/

theorem step_more {r next : Reading} {b : UInt8} (h : r.accept b = .more next) :
    r.step b = (next, []) := by
  unfold step
  rw [h]

theorem step_char {r : Reading} {b : UInt8} {c : Char} (h : r.accept b = .char c) :
    r.step b = (.between, [c]) := by
  unfold step
  rw [h]

theorem step_refused_between {b : UInt8} (h : Reading.between.accept b = .refused) :
    Reading.between.step b = (.between, [replacement]) := by
  unfold step
  rw [h]

/-- A byte that breaks off a character is then read as if it stood between two. -/
theorem step_refused_inside {owed code : Nat} {low high b : UInt8}
    (h : (inside owed low high code).accept b = .refused) :
    (inside owed low high code).step b =
      ((Reading.between.step b).1, replacement :: (Reading.between.step b).2) := by
  unfold step
  rw [h]
  cases Reading.between.accept b <;> rfl

/-! ### Characters and their bytes -/

/-- Where a reader stands behind the first bytes of a character; one constructor for each number of bytes
the character has and has had. -/
inductive Begun : Reading → Bytes → Prop where
  | ofTwo {a : UInt8} : 0xC2 ≤ a.toNat → a.toNat ≤ 0xDF →
      Begun (.inside 1 0x80 0xBF (a.toNat % 0x20)) [a]
  | ofThree {a low high : UInt8} : 0xE0 ≤ a.toNat → a.toNat ≤ 0xEF → 0x80 ≤ low.toNat →
      high.toNat ≤ 0xBF → (a.toNat = 0xE0 → 0xA0 ≤ low.toNat) →
      (a.toNat = 0xED → high.toNat ≤ 0x9F) → Begun (.inside 2 low high (a.toNat % 0x10)) [a]
  | ofThreeTwo {a b : UInt8} : 0xE0 ≤ a.toNat → a.toNat ≤ 0xEF → 0x80 ≤ b.toNat → b.toNat ≤ 0xBF →
      (a.toNat = 0xE0 → 0xA0 ≤ b.toNat) → (a.toNat = 0xED → b.toNat ≤ 0x9F) →
      Begun (.inside 1 0x80 0xBF (a.toNat % 0x10 * 0x40 + b.toNat % 0x40)) [a, b]
  | ofFour {a low high : UInt8} : 0xF0 ≤ a.toNat → a.toNat ≤ 0xF4 → 0x80 ≤ low.toNat →
      high.toNat ≤ 0xBF → (a.toNat = 0xF0 → 0x90 ≤ low.toNat) →
      (a.toNat = 0xF4 → high.toNat ≤ 0x8F) → Begun (.inside 3 low high (a.toNat % 0x08)) [a]
  | ofFourTwo {a b : UInt8} : 0xF0 ≤ a.toNat → a.toNat ≤ 0xF4 → 0x80 ≤ b.toNat → b.toNat ≤ 0xBF →
      (a.toNat = 0xF0 → 0x90 ≤ b.toNat) → (a.toNat = 0xF4 → b.toNat ≤ 0x8F) →
      Begun (.inside 2 0x80 0xBF (a.toNat % 0x08 * 0x40 + b.toNat % 0x40)) [a, b]
  | ofFourThree {a b c : UInt8} : 0xF0 ≤ a.toNat → a.toNat ≤ 0xF4 → 0x80 ≤ b.toNat →
      b.toNat ≤ 0xBF → (a.toNat = 0xF0 → 0x90 ≤ b.toNat) → (a.toNat = 0xF4 → b.toNat ≤ 0x8F) →
      0x80 ≤ c.toNat → c.toNat ≤ 0xBF →
      Begun (.inside 1 0x80 0xBF ((a.toNat % 0x08 * 0x40 + b.toNat % 0x40) * 0x40 + c.toNat % 0x40))
        [a, b, c]

def Holds (r : Reading) (bs : Bytes) : Prop := (r = .between ∧ bs = []) ∨ Begun r bs

theorem holds_between : Holds .between [] := Or.inl ⟨rfl, rfl⟩

/-- The first byte of a character of several. -/
theorem begun_of_accept {b : UInt8} {next : Reading} (h : Reading.between.accept b = .more next) :
    Begun next [b] := by
  unfold accept at h
  simp only [UInt8.lt_iff_toNat_lt, ← UInt8.toNat_inj, UInt8.toNat_ofNat, Nat.reducePow, Nat.reduceMod]
    at h
  -- The cases are the ranges of the first byte, in the order in which they are asked for.
  split at h
  · cases h
  split at h
  · cases h
  split at h
  · cases h
    exact .ofTwo (by omega) (by omega)
  split at h
  · next hb =>
    cases h
    have hcode : b.toNat % 0x10 = 0 := by omega
    rw [← hcode]
    exact .ofThree (by omega) (by omega) (by decide) (by decide) (fun _ => by decide) (by omega)
  split at h
  · next hb =>
    cases h
    have hcode : b.toNat % 0x10 = 0xD := by omega
    rw [← hcode]
    exact .ofThree (by omega) (by omega) (by decide) (by decide) (by omega) (fun _ => by decide)
  split at h
  · cases h
    exact .ofThree (by omega) (by omega) (by decide) (by decide) (by omega) (by omega)
  split at h
  · next hb =>
    cases h
    have hcode : b.toNat % 0x08 = 0 := by omega
    rw [← hcode]
    exact .ofFour (by omega) (by omega) (by decide) (by decide) (fun _ => by decide) (by omega)
  split at h
  · cases h
    exact .ofFour (by omega) (by omega) (by decide) (by decide) (by omega) (by omega)
  split at h
  · next hb =>
    cases h
    have hcode : b.toNat % 0x08 = 4 := by omega
    rw [← hcode]
    exact .ofFour (by omega) (by omega) (by decide) (by decide) (by omega) (fun _ => by decide)
  · cases h

/-- A byte inside a character lies in the range of the next one, and completes it or not. -/
theorem accept_inside {owed code : Nat} {low high b : UInt8} {o : Outcome}
    (h : (inside owed low high code).accept b = o) (ho : o ≠ .refused) :
    low.toNat ≤ b.toNat ∧ b.toNat ≤ high.toNat ∧
      o = if owed ≤ 1 then .char (Char.ofNat (code * 0x40 + b.toNat % 0x40))
        else .more (.inside (owed - 1) 0x80 0xBF (code * 0x40 + b.toNat % 0x40)) := by
  simp only [accept] at h
  split at h
  · next hrange =>
    rw [UInt8.le_iff_toNat_le, UInt8.le_iff_toNat_le] at hrange
    exact ⟨hrange.1, hrange.2, h.symm⟩
  · exact absurd h.symm ho

/-- A byte of a character that is not complete with it. -/
theorem Begun.more {r next : Reading} {bs : Bytes} {b : UInt8} (h : Begun r bs)
    (hb : r.accept b = .more next) : Begun next (bs ++ [b]) := by
  cases h with
  | ofTwo | ofThreeTwo | ofFourThree =>
    -- One byte is owed, so this one completes the character.
    obtain ⟨-, -, h⟩ := accept_inside hb (by simp)
    cases h
  | ofThree ha ha' hlow hhigh hE0 hED =>
    obtain ⟨hl, hh, h⟩ := accept_inside hb (by simp)
    cases h
    exact .ofThreeTwo ha ha' (by omega) (by omega) (by omega) (by omega)
  | ofFour ha ha' hlow hhigh hF0 hF4 =>
    obtain ⟨hl, hh, h⟩ := accept_inside hb (by simp)
    cases h
    exact .ofFourTwo ha ha' (by omega) (by omega) (by omega) (by omega)
  | ofFourTwo ha ha' h1 h1' hF0 hF4 =>
    obtain ⟨hl, hh, h⟩ := accept_inside hb (by simp)
    cases h
    exact .ofFourThree ha ha' h1 h1' hF0 hF4 hl hh

/-- The code point of a character that is made of one. -/
theorem val_ofNat {n : Nat} (h : n.isValidChar) : (Char.ofNat n).val.toNat = n := by
  unfold Char.ofNat
  rw [dif_pos h]
  rfl

theorem ofNat_eq_of_toNat {n : Nat} {b : UInt8} (h : n = b.toNat) : UInt8.ofNat n = b := by
  rw [h, UInt8.ofNat_toNat]

/-- The byte that completes a character completes its encoding. -/
theorem Begun.encode {r : Reading} {bs : Bytes} {b : UInt8} {c : Char} (h : Begun r bs)
    (hb : r.accept b = .char c) : String.utf8EncodeChar c = bs ++ [b] := by
  cases h with
  | @ofTwo a ha ha' =>
    obtain ⟨hl, hh, h⟩ := accept_inside hb (by simp)
    cases h
    have hl' : 0x80 ≤ b.toNat := hl
    have hh' : b.toNat ≤ 0xBF := hh
    have hvalid : (a.toNat % 0x20 * 0x40 + b.toNat % 0x40).isValidChar := Or.inl (by omega)
    unfold String.utf8EncodeChar
    simp only [val_ofNat hvalid]
    rw [if_neg (by omega), if_pos (by omega)]
    refine congrArg₂ List.cons (ofNat_eq_of_toNat ?_) (congrArg₂ List.cons (ofNat_eq_of_toNat ?_) rfl)
      <;> omega
  | @ofThreeTwo a x ha ha' hx hx' hE0 hED =>
    obtain ⟨hl, hh, h⟩ := accept_inside hb (by simp)
    cases h
    have hl' : 0x80 ≤ b.toNat := hl
    have hh' : b.toNat ≤ 0xBF := hh
    -- The bound on the second byte behind `0xED` keeps the code point out of the surrogates.
    have hvalid : ((a.toNat % 0x10 * 0x40 + x.toNat % 0x40) * 0x40 + b.toNat % 0x40).isValidChar := by
      unfold Nat.isValidChar
      omega
    unfold String.utf8EncodeChar
    simp only [val_ofNat hvalid]
    rw [if_neg (by omega), if_neg (by omega), if_pos (by omega)]
    refine congrArg₂ List.cons (ofNat_eq_of_toNat ?_) (congrArg₂ List.cons (ofNat_eq_of_toNat ?_)
      (congrArg₂ List.cons (ofNat_eq_of_toNat ?_) rfl)) <;> omega
  | @ofFourThree a x y ha ha' hx hx' hF0 hF4 hy hy' =>
    obtain ⟨hl, hh, h⟩ := accept_inside hb (by simp)
    cases h
    have hl' : 0x80 ≤ b.toNat := hl
    have hh' : b.toNat ≤ 0xBF := hh
    -- The bound on the second byte behind `0xF4` keeps it below the last code point.
    have hvalid : (((a.toNat % 0x08 * 0x40 + x.toNat % 0x40) * 0x40 + y.toNat % 0x40) * 0x40 +
        b.toNat % 0x40).isValidChar := by
      unfold Nat.isValidChar
      omega
    unfold String.utf8EncodeChar
    simp only [val_ofNat hvalid]
    rw [if_neg (by omega), if_neg (by omega), if_neg (by omega)]
    refine congrArg₂ List.cons (ofNat_eq_of_toNat ?_) (congrArg₂ List.cons (ofNat_eq_of_toNat ?_)
      (congrArg₂ List.cons (ofNat_eq_of_toNat ?_) (congrArg₂ List.cons (ofNat_eq_of_toNat ?_) rfl)))
      <;> omega
  | ofThree | ofFour | ofFourTwo =>
    obtain ⟨-, -, h⟩ := accept_inside hb (by simp)
    cases h

/-- Between characters only a byte of the ASCII range is a character of its own. -/
theorem encode_of_accept_between {b : UInt8} {c : Char} (h : Reading.between.accept b = .char c) :
    String.utf8EncodeChar c = [b] := by
  have hc : b.toNat < 0x80 ∧ c = Char.ofNat b.toNat := by
    simp only [accept] at h
    split at h
    · next hlt =>
      cases h
      exact ⟨UInt8.lt_iff_toNat_lt.mp hlt, rfl⟩
    · repeat' split at h
      all_goals cases h
  obtain ⟨hlt, hc⟩ := hc
  have hvalid : b.toNat.isValidChar := Or.inl (by omega)
  unfold String.utf8EncodeChar
  simp only [hc, val_ofNat hvalid]
  rw [if_pos (by omega), UInt8.ofNat_toNat]

/-- A byte that completes a character completes its encoding. -/
theorem Holds.encode {r : Reading} {bs : Bytes} {b : UInt8} {c : Char} (h : Holds r bs)
    (hb : r.accept b = .char c) : String.utf8EncodeChar c = bs ++ [b] := by
  rcases h with ⟨rfl, rfl⟩ | h
  · exact encode_of_accept_between hb
  · exact h.encode hb

/-- A byte that does not is one more byte of the character. -/
theorem Holds.begun_of_more {r next : Reading} {bs : Bytes} {b : UInt8} (h : Holds r bs)
    (hb : r.accept b = .more next) : Begun next (bs ++ [b]) := by
  rcases h with ⟨rfl, rfl⟩ | h
  · exact begun_of_accept hb
  · exact h.more hb

theorem Holds.more {r next : Reading} {bs : Bytes} {b : UInt8} (h : Holds r bs)
    (hb : r.accept b = .more next) : Holds next (bs ++ [b]) := Or.inr (h.begun_of_more hb)

/-! ### Bytes of a text -/

/-- Where a reader stands behind a byte, unless it refuses it. -/
def next? (r : Reading) (b : UInt8) : Option Reading :=
  match r.accept b with
  | .more next => some next
  | .char _ => some .between
  | .refused => none

def follow? : Reading → Bytes → Option Reading
  | r, [] => some r
  | r, b :: bs => (r.next? b).bind (·.follow? bs)

/-- Reading that refuses nothing can be done in two parts. -/
theorem follow?_append (r : Reading) (a b : Bytes) :
    r.follow? (a ++ b) = (r.follow? a).bind (·.follow? b) := by
  induction a generalizing r with
  | nil => rfl
  | cons x a ih =>
    rw [List.cons_append, follow?, follow?, Option.bind_assoc]
    exact congrArg (Option.bind _) (funext fun next => ih next)

/-- Bytes that are followed to the end of a character are the encoding of what they are read as. -/
theorem Holds.encode_chars {r : Reading} {held bs : Bytes} (h : Holds r held)
    (hfollow : r.follow? bs = some .between) :
    (r.chars bs).flatMap String.utf8EncodeChar = held ++ bs := by
  -- the bytes held are those of the character that the next ones complete
  induction bs generalizing r held with
  | nil =>
    cases hfollow
    rcases h with ⟨-, rfl⟩ | h
    · rfl
    · cases h
  | cons b bs ih =>
    rw [chars]
    rw [follow?, next?] at hfollow
    cases hb : r.accept b with
    | more next =>
      rw [hb] at hfollow
      have hrest := ih (h.more hb) hfollow
      rw [step_more hb]
      simpa using hrest
    | char c =>
      rw [hb] at hfollow
      have hrest := ih holds_between hfollow
      rw [step_char hb]
      simp [List.flatMap_cons, h.encode hb, hrest]
    | refused =>
      rw [hb] at hfollow
      cases hfollow

/-! ### Line feeds -/

def Standing (r : Reading) : Prop := ∃ held, Holds r held

theorem standing_between : Standing .between := ⟨[], holds_between⟩

/-- A byte leads to a place where a reader can stand. -/
theorem Standing.step {r : Reading} (h : r.Standing) (b : UInt8) : (r.step b).1.Standing := by
  have hbetween : (Reading.between.step b).1.Standing := by
    cases hb : Reading.between.accept b with
    | more next => rw [step_more hb]; exact ⟨_, holds_between.more hb⟩
    | char c => rw [step_char hb]; exact standing_between
    | refused => rw [step_refused_between hb]; exact standing_between
  obtain ⟨held, h⟩ := h
  cases hb : r.accept b with
  | more next => rw [step_more hb]; exact ⟨_, h.more hb⟩
  | char c => rw [step_char hb]; exact standing_between
  | refused =>
    cases r with
    | between => exact hbetween
    | inside => rw [step_refused_inside hb]; exact hbetween

theorem Standing.next? {r next : Reading} (h : r.Standing) {b : UInt8} (hb : r.next? b = some next) :
    next.Standing := by
  obtain ⟨held, h⟩ := h
  unfold Reading.next? at hb
  cases haccept : r.accept b with
  | more after =>
    rw [haccept] at hb
    cases hb
    exact ⟨_, h.more haccept⟩
  | char c =>
    rw [haccept] at hb
    cases hb
    exact standing_between
  | refused =>
    rw [haccept] at hb
    cases hb

theorem Standing.after {r : Reading} (h : r.Standing) (bs : Bytes) : (r.after bs).Standing := by
  induction bs generalizing r with
  | nil => exact h
  | cons b bs ih => exact ih (h.step b)

/-- No character of several bytes holds a byte of the ASCII range. -/
theorem Begun.refuses {r : Reading} {bs : Bytes} (h : Begun r bs) {b : UInt8} (hb : b.toNat < 0x80) :
    r.accept b = .refused := by
  -- Whatever byte is due inside of a character, it is none of the ASCII range.
  have hrange {owed code : Nat} {low high : UInt8} (hlow : 0x80 ≤ low.toNat) :
      (inside owed low high code).accept b = .refused := by
    simp only [accept, UInt8.le_iff_toNat_le]
    rw [if_neg (by omega)]
  cases h with
  | ofTwo => exact hrange (by decide)
  | ofThree _ _ hlow => exact hrange hlow
  | ofThreeTwo => exact hrange (by decide)
  | ofFour _ _ hlow => exact hrange hlow
  | ofFourTwo => exact hrange (by decide)
  | ofFourThree => exact hrange (by decide)

theorem accept_newline : Reading.between.accept 0x0A = .char '\n' := by decide

/-- A line feed always completes itself, and breaks off any character before it. -/
theorem Standing.step_newline {r : Reading} (h : r.Standing) :
    (r.step 0x0A).1 = .between ∧ (r.step 0x0A).2.getLast? = some '\n' := by
  obtain ⟨held, ⟨rfl, -⟩ | h⟩ := h
  · exact ⟨rfl, rfl⟩
  · cases r with
    | between => exact ⟨rfl, rfl⟩
    | inside =>
      rw [step_refused_inside (h.refuses (by decide)), step_char accept_newline]
      exact ⟨rfl, rfl⟩

/-- Behind a line feed a reader stands between characters, and the text ends in the line feed. -/
theorem Standing.after_append_newline {r : Reading} (h : r.Standing) (bs : Bytes) :
    r.after (bs ++ [0x0A]) = .between ∧ (r.chars (bs ++ [0x0A])).getLast? = some '\n' := by
  obtain ⟨hafter, hlast⟩ := (h.after bs).step_newline
  refine ⟨by rw [after_append]; exact hafter, ?_⟩
  rw [chars_append, chars, chars, hafter, finish, List.append_nil, List.getLast?_append, hlast]
  rfl

/-- A reader that stands inside a character owes a replacement. -/
theorem Begun.finish_eq {r : Reading} {bs : Bytes} (h : Begun r bs) : r.finish = [replacement] := by
  cases h <;> rfl

/-- The text of one byte between characters: a character of its own, or a replacement. -/
theorem chars_singleton_between (b : UInt8) :
    (∃ c, Reading.between.accept b = .char c ∧ Reading.between.chars [b] = [c]) ∨
      Reading.between.chars [b] = [replacement] := by
  rw [chars, chars]
  cases hb : Reading.between.accept b with
  | more next =>
    right
    rw [step_more hb, (begun_of_accept hb).finish_eq]
    rfl
  | char c =>
    left
    rw [step_char hb]
    exact ⟨c, rfl, rfl⟩
  | refused =>
    right
    rw [step_refused_between hb]
    rfl

/-- The text of one byte: the character that it completes, or a replacement for one that is broken or cut
off, perhaps with the text of the byte alone behind it. -/
theorem Holds.chars_singleton {r : Reading} {held : Bytes} (h : Holds r held) (b : UInt8) :
    (∃ c, r.accept b = .char c ∧ r.chars [b] = [c]) ∨ r.chars [b] = [replacement] ∨
      r.chars [b] = replacement :: Reading.between.chars [b] := by
  rcases h with ⟨rfl, rfl⟩ | h
  · rcases chars_singleton_between b with hchar | hreplace
    · exact Or.inl hchar
    · exact Or.inr (Or.inl hreplace)
  · rw [chars, chars]
    -- the byte goes on and the text ends there, or it completes a character, or it is refused and read
    -- again
    cases hb : r.accept b with
    | more next =>
      right; left
      rw [step_more hb, (h.more hb).finish_eq]
      rfl
    | char c =>
      left
      rw [step_char hb]
      exact ⟨c, rfl, rfl⟩
    | refused =>
      right; right
      cases r with
      | between => cases h
      | inside =>
        rw [step_refused_inside hb]
        rfl

/-- Only the byte of a line feed is read as one, and no byte is read as nothing. -/
theorem Standing.eq_newline {r : Reading} (h : r.Standing) {b : UInt8} :
    r.chars [b] ≠ [] ∧ ((r.chars [b]).getLast? = some '\n' → b = 0x0A) := by
  -- The byte that completes a character is the last one of its encoding.
  have hbyte (held : Bytes) (hc : String.utf8EncodeChar '\n' = held ++ [b]) : b = 0x0A := by
    have hget := congrArg List.getLast? hc
    rw [List.getLast?_concat] at hget
    exact (Option.some.inj hget).symm
  have hbetween : (Reading.between.chars [b]).getLast? = some '\n' → b = 0x0A := by
    intro hlast
    rcases chars_singleton_between b with ⟨c, hb, hchars⟩ | hchars
    · rw [hchars] at hlast
      obtain rfl : c = '\n' := Option.some.inj hlast
      exact hbyte [] (encode_of_accept_between hb)
    · rw [hchars] at hlast
      cases hlast
  obtain ⟨held, h⟩ := h
  rcases h.chars_singleton b with ⟨c, hb, hchars⟩ | hchars | hchars
  · rw [hchars]
    refine ⟨List.cons_ne_nil _ _, ?_⟩
    intro hlast
    obtain rfl : c = '\n' := Option.some.inj hlast
    exact hbyte held (h.encode hb)
  · rw [hchars]
    refine ⟨List.cons_ne_nil _ _, ?_⟩
    intro hlast
    cases hlast
  · rw [hchars]
    refine ⟨List.cons_ne_nil _ _, ?_⟩
    intro hlast
    apply hbetween
    rcases chars_singleton_between b with ⟨c, -, hsingle⟩ | hsingle <;>
      · rw [hsingle] at hlast ⊢
        exact hlast

/-- A text that ends in a line feed is that of bytes that end in one. -/
theorem Standing.exists_append_newline {r : Reading} (h : r.Standing) {bs : Bytes}
    (hlast : (r.chars bs).getLast? = some '\n') : ∃ front, bs = front ++ [0x0A] := by
  rcases List.eq_nil_or_concat bs with rfl | ⟨front, b, rfl⟩
  · rw [chars] at hlast
    cases r <;> cases hlast
  · obtain ⟨hne, heq⟩ := (h.after front).eq_newline (b := b)
    rw [List.concat_eq_append, chars_append, List.getLast?_append_of_ne_nil _ hne] at hlast
    exact ⟨front, by rw [heq hlast, List.concat_eq_append]⟩

end Reading

def IsText (bs : Bytes) : Prop := Reading.between.follow? bs = some .between

/-- Bytes of a text are the encoding of what they are read as. -/
theorem encode_decode {bs : Bytes} (h : IsText bs) : encode (decode bs) = bs := by
  rw [encode, decode, String.toList_ofList]
  exact Reading.holds_between.encode_chars h

end GuidedDecoding.Utf8
