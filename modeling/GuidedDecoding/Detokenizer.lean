import GuidedDecoding.TextDecoder
import GuidedDecoding.Text.Utf8

/-!
# Text while tokens come in

A detokenizer turns tokens into text one by one. It decodes all tokens of a segment each time and gives out
what the text has more than before, counted in bytes. Text that ends in a replacement character is held back,
because the next token may complete the character.

A newline ends a segment. Its token begins the next one, so that a decoder which treats the start of a text
in its own way sees no start there.
-/

namespace GuidedDecoding

/-- The segment of tokens that is being decoded, and how many bytes of its text have been given out. -/
structure Detokenizer where
  decoder : TextDecoder
  segment : List TokenId := []
  emitted : Nat := 0

namespace Detokenizer

def endsIn (c : Char) (text : String) : Bool := text.toList.getLast? == some c

/-- Gives out what a text of the segment has more than before. A text that no longer reaches that far, or has
no character border there, gives nothing. -/
def release (d : Detokenizer) (text : String) : Detokenizer × String :=
  match Utf8.dropBytes? d.emitted text.toList with
  | some rest => ({ d with emitted := Utf8.byteLength text.toList }, String.ofList rest)
  | none => (d, "")

def restart (d : Detokenizer) (id : TokenId) : Detokenizer × Except Failure Unit :=
  let d := { d with segment := [id] }
  match d.decoder.decode [id] with
  | .ok text => ({ d with emitted := Utf8.byteLength text.toList }, .ok ())
  | .error e => (d, .error e)

/-- Takes in a token: the text that is complete with it, perhaps none. -/
def push (d : Detokenizer) (id : TokenId) : Detokenizer × Except Failure String :=
  let d := { d with segment := d.segment ++ [id] }
  match d.decoder.decode d.segment with
  | .error e => (d, .error e)
  | .ok text =>
    if endsIn Utf8.replacement text then (d, .ok "")
    else
      let (d, chunk) := d.release text
      if endsIn '\n' text then
        match d.restart id with
        | (d, .ok ()) => (d, .ok chunk)
        | (d, .error e) => (d, .error e)
      else (d, .ok chunk)

def flush (d : Detokenizer) : Detokenizer × Except Failure String :=
  if d.segment.isEmpty then (d, .ok "")
  else
    match d.decoder.decode d.segment with
    | .error e => (d, .error e)
    | .ok text =>
      let (d, chunk) := d.release text
      ({ d with segment := [], emitted := 0 }, .ok chunk)

end Detokenizer

end GuidedDecoding
