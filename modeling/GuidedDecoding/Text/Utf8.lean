/-!
# UTF-8 bytes of a text, and the text of any bytes

Tokens hold bytes, and a token may end in the middle of a character. So reading is total: every byte
sequence is a text, in which each maximal run of bytes that begins a character but does not finish it
becomes one replacement character `U+FFFD`, and so does every byte that begins none.

Reading is a machine over single bytes. Between characters it stands in `Reading.between`; inside one
it knows how many continuation bytes are owed and in which range the next one lies. `Reading.accept`
refuses a byte outside the range; `Reading.step` lets it end the broken character.
-/

namespace GuidedDecoding

abbrev Bytes := List UInt8

namespace Utf8

def encode (s : String) : Bytes := s.toList.flatMap String.utf8EncodeChar

def byteLength : List Char → Nat
  | [] => 0
  | c :: cs => c.utf8Size + byteLength cs

/-- What is left of `cs` after its first `n` bytes; nothing when `n` falls inside a character or behind
the end. -/
def dropBytes? : Nat → List Char → Option (List Char)
  | 0, cs => some cs
  | _ + 1, [] => none
  | n + 1, c :: cs => if c.utf8Size ≤ n + 1 then dropBytes? (n + 1 - c.utf8Size) cs else none

theorem byteLength_append (a b : List Char) : byteLength (a ++ b) = byteLength a + byteLength b := by
  induction a with
  | nil => simp [byteLength]
  | cons c cs ih => simp [byteLength, ih, Nat.add_assoc]

/-- The length of a text in bytes is that of its encoding. -/
theorem length_encode (s : String) : (encode s).length = byteLength s.toList := by
  unfold encode
  induction s.toList with
  | nil => rfl
  | cons c cs ih => simp [byteLength, ih, String.length_utf8EncodeChar]

/-- Behind the bytes of a text comes what follows it. -/
theorem dropBytes?_byteLength_append (a b : List Char) :
    dropBytes? (byteLength a) (a ++ b) = some b := by
  induction a with
  | nil => simp [byteLength, dropBytes?]
  | cons c cs ih =>
    obtain ⟨n, hn⟩ : ∃ n, c.utf8Size + byteLength cs = n + 1 :=
      ⟨c.utf8Size + byteLength cs - 1, by have := c.utf8Size_pos; omega⟩
    have hc : c.utf8Size ≤ n + 1 := by omega
    have hrest : n + 1 - c.utf8Size = byteLength cs := by omega
    simp only [byteLength, List.cons_append, hn, dropBytes?]
    rw [if_pos hc, hrest, ih]

/-- The character that stands for bytes that are no text. -/
def replacement : Char := '\uFFFD'

inductive Reading where
  /-- Between two characters. -/
  | between
  /-- Inside a character: `owed` more bytes complete it, the next one in `low … high`, and `code` is
  what the bytes so far contribute to its code point. -/
  | inside (owed : Nat) (low high : UInt8) (code : Nat)
  deriving DecidableEq, Repr

inductive Outcome where
  /-- The byte belongs to a character that is not complete yet. -/
  | more (next : Reading)
  /-- The byte completes a character. -/
  | char (c : Char)
  /-- No character continues with this byte. -/
  | refused
  deriving DecidableEq, Repr

namespace Reading

/-- Reads one byte. -/
def accept : Reading → UInt8 → Outcome
  | .between, b =>
    if b < 0x80 then .char (Char.ofNat b.toNat)
    else if b < 0xC2 then .refused
    else if b < 0xE0 then .more (.inside 1 0x80 0xBF (b.toNat % 0x20))
    -- The next byte is bounded here and below so that no character has two encodings and none is a
    -- surrogate.
    else if b = 0xE0 then .more (.inside 2 0xA0 0xBF 0)
    else if b = 0xED then .more (.inside 2 0x80 0x9F 0xD)
    else if b < 0xF0 then .more (.inside 2 0x80 0xBF (b.toNat % 0x10))
    else if b = 0xF0 then .more (.inside 3 0x90 0xBF 0)
    else if b < 0xF4 then .more (.inside 3 0x80 0xBF (b.toNat % 0x08))
    else if b = 0xF4 then .more (.inside 3 0x80 0x8F 4)
    else .refused
  | .inside owed low high code, b =>
    if low ≤ b ∧ b ≤ high then
      let code := code * 0x40 + b.toNat % 0x40
      if owed ≤ 1 then .char (Char.ofNat code) else .more (.inside (owed - 1) 0x80 0xBF code)
    else .refused

/-- The lowest and the highest code point that the next bytes can complete. -/
def range : Reading → Nat × Nat
  | .between => (0, 0x10FFFF)
  | .inside owed low high code =>
    let unit := Nat.pow 0x40 (owed - 1)
    ((code * 0x40 + low.toNat % 0x40) * unit, (code * 0x40 + high.toNat % 0x40 + 1) * unit - 1)

/-- Reads one byte of a text that may be broken: the position after it, and the characters it
completes. A refused byte ends the character before it and is read again; one that is refused between
characters is a broken character of its own. -/
def step (r : Reading) (b : UInt8) : Reading × List Char :=
  match r.accept b with
  | .more next => (next, [])
  | .char c => (.between, [c])
  | .refused =>
    match r, Reading.between.accept b with
    | .between, _ => (.between, [replacement])
    | .inside .., .more next => (next, [replacement])
    | .inside .., .char c => (.between, [replacement, c])
    | .inside .., .refused => (.between, [replacement, replacement])

/-- The characters still due at the end of the bytes: a character that was cut off counts once. -/
def finish : Reading → List Char
  | .between => []
  | .inside .. => [replacement]

/-- The characters of the bytes read from a position on. -/
def chars : Reading → Bytes → List Char
  | r, [] => r.finish
  | r, b :: bs => (r.step b).2 ++ (r.step b).1.chars bs

end Reading

/-- The text of any bytes, with `U+FFFD` for what is not UTF-8. -/
def decode (bs : Bytes) : String := String.ofList (Reading.between.chars bs)

end Utf8

end GuidedDecoding
