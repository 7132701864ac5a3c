import GuidedDecoding.Text.Replace
import GuidedDecoding.Tokenizer
import GuidedDecoding.Unicode.Class

/-!
# Tokenizers of words

A tokenizer whose prompts are cut into words. One word stands for all that it does not know, and added tokens
are found in a prompt before it is cut. It puts nothing around a prompt. Text comes from the surfaces of
tokens in a few decoding steps; unknown ids are left out.

It is read from a document. One that asks for anything else than what there is here is not a tokenizer of
words.
-/

namespace GuidedDecoding

open Json (Value)

/-- A decoding step, from the surfaces of tokens towards their text. -/
inductive DecodingStep where
  /-- All surfaces become one. -/
  | fuse
  /-- Every occurrence of a text within a surface is replaced. -/
  | replace (target replacement : List Char)
  /-- A mark stands for a blank; within the first surface it is dropped, unless kept. -/
  | blankMark (mark : Char) (keepsFirst : Bool)
  /-- Several steps in order. -/
  | chain (steps : List DecodingStep)

mutual
def DecodingStep.run (surfaces : List (List Char)) : DecodingStep → List (List Char)
  | .fuse => [surfaces.flatten]
  | .replace target replacement => surfaces.map (Text.replaceAll target replacement)
  | .blankMark mark keepsFirst =>
    surfaces.mapIdx fun i s => s.flatMap fun c =>
      if c != mark then [c] else if i = 0 ∧ !keepsFirst then [] else [' ']
  | .chain steps => DecodingStep.runAll surfaces steps

def DecodingStep.runAll (surfaces : List (List Char)) : List DecodingStep → List (List Char)
  | [] => surfaces
  | step :: rest => DecodingStep.runAll (step.run surfaces) rest
end

/-- A token beside the words. -/
structure AddedWord where
  content : String
  id : TokenId
  isSpecial : Bool
  deriving DecidableEq, Repr

/-- What cuts prompts into words, and puts their surfaces together. -/
structure WordTokenizer where
  words : List (String × TokenId)
  /-- The word that stands for unknown ones. -/
  unknown : String
  added : List AddedWord
  /-- Whether words end at blanks; otherwise a text is a single word. -/
  splitsAtBlanks : Bool
  /-- Without decoding steps surfaces are joined by blanks. -/
  decoding : Option DecodingStep

namespace WordTokenizer

def word? (t : WordTokenizer) (s : String) : Option TokenId :=
  (t.words.find? (·.1 == s)).map (·.2)

def id? (t : WordTokenizer) (s : String) : Option TokenId :=
  ((t.added.find? (·.content == s)).map (·.id)).or (t.word? s)

def surface? (t : WordTokenizer) (id : TokenId) : Option String :=
  -- Of added tokens with one id the last one counts, of words the first.
  ((t.added.findRev? (·.id == id)).map (·.content)).or
    ((t.words.find? (·.2 == id)).map (·.1))

/-- The number of different surfaces. -/
def size (t : WordTokenizer) : Nat :=
  t.words.length + (t.added.filter fun a => (t.word? a.content).isNone).length

def isMarked (t : WordTokenizer) (s : String) : Bool := t.added.any fun a => a.isSpecial && a.content == s

/-- The surfaces that the text of tokens is made of; a token without one is left out. -/
def shown (t : WordTokenizer) (ids : List TokenId) (skipping : Bool) : List String :=
  (ids.filterMap t.surface?).filter fun s => !(skipping && t.isMarked s)

def join (t : WordTokenizer) (surfaces : List String) : String :=
  match t.decoding with
  | none => " ".intercalate surfaces
  | some step => String.ofList (step.run (surfaces.map String.toList)).flatten

/-- The token of a word, or the one that stands for unknown words. -/
def wordToken? (t : WordTokenizer) (s : List Char) : Option TokenId :=
  (t.word? (String.ofList s)).or (t.word? t.unknown)

def tokens? (t : WordTokenizer) (prompt : String) : Option (List TokenId) := do
  let parts := Text.split (t.added.map fun a => (a.content.toList, a.id)) prompt.toList
  let ids ← parts.mapM fun part => match part with
    | .found id => some [id]
    | .plain cs =>
      (if t.splitsAtBlanks then Text.runs Unicode.isBlank [] cs else [cs]).mapM t.wordToken?
  return ids.flatten

/-- To skip special tokens is to leave out the tokens that are special. -/
theorem shown_skipping (t : WordTokenizer) (ids : List TokenId) :
    t.shown ids true = t.shown (ids.filter fun id => !(t.surface? id).any t.isMarked) false := by
  induction ids with
  | nil => rfl
  | cons id ids ih =>
    unfold shown at ih ⊢
    cases hs : t.surface? id with
    | none => simp_all
    | some s => cases hmark : t.isMarked s <;> simp_all

/-- The tokenizer that cuts prompts into words. -/
def tokenizer (t : WordTokenizer) : Tokenizer where
  size := t.size
  id? := t.id?
  surface? := t.surface?
  isMarked := t.isMarked
  tokens? prompt _ := t.tokens? prompt
  text? ids skipping := some (t.join (t.shown ids skipping))
  text?_skipping ids := by rw [shown_skipping]

/-! ### Loading -/

def members? : Value → Option (List (String × Value))
  | .object ms => some ms
  | _ => none

/-- The value of a member that may be absent; `null` is absent too. -/
def given? (key : String) (ms : List (String × Value)) : Option Value :=
  match Value.member? key ms with
  | some .null | none => none
  | some v => some v

def textMember? (key : String) (ms : List (String × Value)) : Option String :=
  (Value.member? key ms).bind Value.text?

def tokenId? : Value → Option TokenId
  | .number (.integer n) => if 0 ≤ n ∧ n.toNat < Nat.pow 2 32 then some n.toNat.toUInt32 else none
  | _ => none

/-- Reads a decoding step whose chains nest at most `depth` deep. -/
def decodingStep? : (depth : Nat) → Value → Option DecodingStep
  | 0, _ => none
  | depth + 1, v => do
    let ms ← members? v
    match ← textMember? "type" ms with
    | "Fuse" => return .fuse
    | "Replace" =>
      let pattern ← members? (← Value.member? "pattern" ms)
      return .replace (← textMember? "String" pattern).toList (← textMember? "content" ms).toList
    | "Metaspace" =>
      let scheme := ((given? "prepend_scheme" ms).bind Value.text?).getD "always"
      guard (scheme ∈ ["always", "first", "never"])
      match (← textMember? "replacement" ms).toList with
      | [mark] => return .blankMark mark (scheme = "never")
      | _ => none
    | "Sequence" =>
      match ← Value.member? "decoders" ms with
      | .array vs => return .chain (← vs.mapM (decodingStep? depth))
      | _ => none
    | _ => none

/-- Reads the words and the one that stands for unknown words. -/
def words? (v : Value) : Option (List (String × TokenId) × String) := do
  let ms ← members? v
  guard (((Value.member? "type" ms).getD (.text "WordLevel")).text? = some "WordLevel")
  -- Of words that are written twice the last one counts.
  let words ← (Value.sortMembers (← members? (← Value.member? "vocab" ms))).mapM fun (s, v) => do
    return (s, ← tokenId? v)
  return (words, ← textMember? "unk_token" ms)

/-- Reads an added token: its content and whether it is special. -/
def addedWord? (v : Value) : Option (String × Bool) := do
  let ms ← members? v
  let flag (key : String) : Option Bool := match Value.member? key ms with
    | some (.bool b) => some b
    | _ => none
  let _ ← tokenId? (← Value.member? "id" ms)
  guard ((← flag "single_word") = false ∧ (← flag "lstrip") = false ∧ (← flag "rstrip") = false ∧
    (← flag "normalized") = false)
  return (← textMember? "content" ms, ← flag "special")

/-- Adds a token beside the words. It has the id of its word, or of the added token with its content, or else
the next one behind all ids in use. -/
def add (t : WordTokenizer) (content : String) (isSpecial : Bool) : WordTokenizer :=
  if content.isEmpty ∨ t.added.any fun a => a.content == content && a.isSpecial == isSpecial then t
  else
    -- Words are taken to have the ids below their number.
    let next := (t.added.map fun a => a.id.toNat + 1).foldl max t.words.length
    { t with added := t.added ++ [⟨content, (t.id? content).getD next.toUInt32, isSpecial⟩] }

def fields : List String :=
  ["version", "truncation", "padding", "added_tokens", "normalizer", "pre_tokenizer",
    "post_processor", "decoder", "model"]

def ofValue? (v : Value) : Option WordTokenizer := do
  let ms ← members? v
  guard (ms.all fun (k, _) => k ∈ fields)
  guard (((Value.member? "version" ms).getD (.text "1.0")).text? = some "1.0")
  guard (["truncation", "padding", "normalizer", "post_processor"].all fun k => (given? k ms).isNone)
  let splitsAtBlanks ← match given? "pre_tokenizer" ms with
    | none => some false
    | some v =>
      if (members? v).bind (textMember? "type") = some "WhitespaceSplit" then some true else none
  let decoding ← match given? "decoder" ms with
    | none => some none
    | some v => (decodingStep? (Json.nestingLimit + 1) v).map some
  let (words, unknown) ← words? (← Value.member? "model" ms)
  let added ← match Value.member? "added_tokens" ms with
    | none => some []
    | some (.array vs) => vs.mapM addedWord?
    | some _ => none
  let plain : WordTokenizer := { words, unknown, added := [], splitsAtBlanks, decoding }
  return added.foldl (fun t (content, isSpecial) => t.add content isSpecial) plain

def read? (text : String) : Option Tokenizer :=
  ((Json.parse text).toOption.bind ofValue?).map tokenizer

end WordTokenizer

end GuidedDecoding
