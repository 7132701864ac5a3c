import GuidedDecoding.Text.Utf8

/-!
# From the surface of a token to its bytes

A vocabulary writes each token as a string, its *surface*. Which bytes a surface stands for depends on
how the vocabulary was made:

* `plain`: the UTF-8 bytes of the surface;
* `byteFallback`: a surface `<0xHH>` is the single byte `HH`, and elsewhere `▁` is a space;
* `byteLevel`: every byte has a printable character of its own, and the surface lists those.

Only `byteFallback` can fail, on a surface in the frame `<0x..>` that holds no number.
-/

namespace GuidedDecoding

/-- How the surfaces of a vocabulary stand for bytes. -/
inductive SurfaceEncoding where
  | plain
  | byteFallback
  | byteLevel
  deriving DecidableEq, Repr, Inhabited

/-- A surface that stands for no bytes under its encoding. -/
structure UnreadableSurface where
  surface : String
  deriving DecidableEq, Repr

def UnreadableSurface.message (e : UnreadableSurface) : String :=
  "invalid byte fallback token: " ++ e.surface

namespace SurfaceEncoding

def name : SurfaceEncoding → String
  | .plain => "plain"
  | .byteFallback => "byte-fallback"
  | .byteLevel => "byte-level"

/-- The encoding that a decoder of this kind undoes, if the kind is about bytes at all. -/
def ofDecoderKind? : String → Option SurfaceEncoding
  | "ByteFallback" => some .byteFallback
  | "ByteLevel" => some .byteLevel
  | _ => none

/-! ### Byte fallback -/

def hexDigit? (b : UInt8) : Option UInt8 :=
  if 0x30 ≤ b ∧ b ≤ 0x39 then some (b - 0x30)
  else if 0x41 ≤ b ∧ b ≤ 0x46 then some (b - 0x37)
  else if 0x61 ≤ b ∧ b ≤ 0x66 then some (b - 0x57)
  else none

/-- The hexadecimal number that two bytes write: two digits, or a plus sign and one digit. -/
def hexPair? (a b : UInt8) : Option UInt8 :=
  match hexDigit? a, hexDigit? b with
  | some high, some low => some (high * 16 + low)
  | none, some low => if a = 0x2B then some low else none
  | _, none => none

/-- The two middle bytes of a surface of six bytes in the frame `<0x..>`. -/
def frame? : Bytes → Option (UInt8 × UInt8)
  | [l, z, x, a, b, r] =>
    if l = 0x3C ∧ z = 0x30 ∧ x = 0x78 ∧ r = 0x3E then some (a, b) else none
  | _ => none

/-- A surface with its word marks `▁` turned into spaces. -/
def spaced (s : String) : String :=
  String.ofList (s.toList.map fun c => if c = '\u2581' then ' ' else c)

def fallbackBytes (s : String) : Except UnreadableSurface Bytes :=
  match frame? (Utf8.encode s) with
  | some (a, b) =>
    match hexPair? a b with
    | some byte => .ok [byte]
    | none => .error ⟨s⟩
  | none => .ok (Utf8.encode (spaced s))

/-! ### Byte level -/

/-- The byte that a character stands for at byte level. A printable byte is its own character; the 68
others, in ascending order, are the characters from code point 256 on. -/
def levelByte? (c : Char) : Option UInt8 :=
  let n := c.toNat
  if (0x21 ≤ n ∧ n ≤ 0x7E) ∨ (0xA1 ≤ n ∧ n ≤ 0xAC) ∨ (0xAE ≤ n ∧ n ≤ 0xFF) then some n.toUInt8
  else if 256 ≤ n ∧ n ≤ 288 then some (n - 256).toUInt8
  else if 289 ≤ n ∧ n ≤ 322 then some (n - 289 + 0x7F).toUInt8
  else if n = 323 then some 0xAD
  else none

/-- The bytes of one character at byte level; a character outside the table stands for itself. -/
def levelBytes (c : Char) : Bytes :=
  match levelByte? c with
  | some b => [b]
  | none => String.utf8EncodeChar c

def bytes : SurfaceEncoding → String → Except UnreadableSurface Bytes
  | .plain, s => .ok (Utf8.encode s)
  | .byteFallback, s => fallbackBytes s
  | .byteLevel, s => .ok (s.toList.flatMap levelBytes)

end SurfaceEncoding

end GuidedDecoding
