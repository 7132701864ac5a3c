import GuidedDecoding.Text.Record
import GuidedDecoding.TextDecoder
import GuidedDecoding.Vocabulary.Metadata

/-!
# Tokenizers

A tokenizer turns prompts into tokens and tokens into text. There are many kinds, which cut a prompt and put
surfaces together in ways of their own. A `Tokenizer` has what all of them offer, with the one law that
generated text depends on: a text that is to be without special tokens lacks the marked ones and no others.

A tokenizer is read from a document. Which documents can be read is up to the kinds at hand, and so `ofText` and
`load` take what reads them.
-/

namespace GuidedDecoding

/-- What turns prompts into tokens and tokens into text, each of which it may fail to do. -/
structure Tokenizer where
  /-- The number of different surfaces. -/
  size : Nat
  id? : String → Option TokenId
  surface? : TokenId → Option String
  /-- Whether a surface is that of an added token that is marked as special. -/
  isMarked : String → Bool
  /-- The tokens of a prompt; `framed` asks for those that belong around it as well. -/
  tokens? : (prompt : String) → (framed : Bool) → Option (List TokenId)
  /-- The text of tokens; `skipping` asks for one without special tokens. -/
  text? : (ids : List TokenId) → (skipping : Bool) → Option String
  text?_skipping : ∀ ids, text? ids true = text? (ids.filter fun id => !(surface? id).any isMarked) false

namespace Tokenizer

/-- Whether a token is special, which its surface tells. -/
def isSpecial (t : Tokenizer) (id : TokenId) : Bool := (t.surface? id).any t.isMarked

def encode (t : Tokenizer) (prompt : String) (framed : Bool) : Except Failure (List TokenId) :=
  match t.tokens? prompt framed with
  | some ids => .ok ids
  | none => .error (.input .unencodableText)

def decode (t : Tokenizer) (ids : List TokenId) : Except Failure String :=
  match t.text? ids true with
  | some text => .ok text
  | none => .error (.model .undecodableTokens)

theorem decode_eq_ok_iff {t : Tokenizer} {ids : List TokenId} {text : String} :
    t.decode ids = .ok text ↔ t.text? ids true = some text := by
  unfold decode
  cases t.text? ids true with
  | none => simp
  | some whole => simp

def decoder (t : Tokenizer) : TextDecoder := ⟨t.decode⟩

def ofText (read? : String → Option Tokenizer) (text : String) : Except Failure Tokenizer :=
  match read? text with
  | some t => .ok t
  | none => .error (.setup .tokenizerUnloadable)

def load (read? : String → Option Tokenizer) (d : Directory) : Except Failure Tokenizer :=
  match d.file? "tokenizer.json" with
  | some text => ofText read? text
  | none => .error (.setup (.tokenizerNotFound d.path))

def describe (t : Tokenizer) : String := Text.record "Tokenizer" [("vocab_size", toString t.size)]

end Tokenizer

end GuidedDecoding
