import GuidedDecoding.Vocabulary.Lexicon
import GuidedDecoding.Vocabulary.Metadata

/-!
# From metadata to a lexicon

The metadata of a model describe its vocabulary in overlapping places, which `reconcile` brings
together. It never fails: what is malformed or out of range is left out.

* The vocabulary is as large as the configuration declares and as the greatest id needs, and has at
  least one slot.
* An added token takes its slot from a token of the vocabulary, and a later one from an earlier one.
* Stop tokens are the first slots with the surfaces that the caller names, in that order, and then
  with the end token of the tokenizer.
-/

namespace GuidedDecoding

open Json (Value)

/-- Ids at or beyond this bound are taken for errors, and no vocabulary is larger. -/
def vocabularyBound : Nat := Nat.pow 2 24

/-- The surface at the begin of a piece of a vocabulary that is a list. -/
def pieceSurface? : Value → Option String
  | .text s => some s
  | .array (.text s :: _) => some s
  | _ => none

/-- The ids and surfaces of a vocabulary: an object maps surfaces to ids and is read in the order of
its keys; in a list the position is the id. -/
def baseEntries : Option Value → List (Nat × String)
  | some (.object members) =>
    (Value.sortMembers members).filterMap fun (s, v) => (vocabularyIndex? v).map (·, s)
  | some (.array pieces) =>
    pieces.zipIdx.filterMap fun (piece, i) => (pieceSurface? piece).map (i, ·)
  | _ => []

/-- The id, the surface and the mark of an added token that has both. -/
def AddedToken.entry? (a : AddedToken) : Option (Nat × String × Bool) := do
  let id ← a.id.bind vocabularyIndex?
  let surface ← a.content.bind Value.text?
  return (id, surface, a.special.getD false)

def addedEntries (t : TokenizerData) : List (Nat × String × Bool) :=
  (t.addedTokens.getD []).filterMap AddedToken.entry?

/-- The encoding that a decoder undoes: that of the first decoder of a sequence that has one. -/
def encodingOf : Option DecoderConfig → SurfaceEncoding
  | none => .plain
  | some d =>
    let pipeline := if d.kind = some "Sequence" then d.decoders.getD [] else [d]
    (pipeline.findSome? fun d => d.kind.bind SurfaceEncoding.ofDecoderKind?).getD .plain

/-- The least size above all these ids. -/
def sizeAbove (ids : List Nat) : Nat := ids.foldl (fun n i => max n (i + 1)) 0

/-- The surfaces of a vocabulary of this size with these entries, of which a later one wins. -/
def fillSlots (size : Nat) (entries : List (Nat × String)) : Array String :=
  entries.foldl (fun slots (i, s) => slots.setIfInBounds i s) (Array.replicate size "")

/-- The stop tokens that these surfaces name. -/
def stopTokens (v : Vocabulary) (surfaces : List String) : StopSet :=
  .ofList (surfaces.filterMap v.find?)

/-- The lexicon that metadata describe. -/
def reconcile (extraEnds : List String) (config : Option ModelConfig)
    (tokenizerConfig : Option TokenizerConfig) (tokenizer : TokenizerData) : Lexicon :=
  let base := (baseEntries tokenizer.model.vocabulary).filter (·.1 < vocabularyBound)
  let added := (addedEntries tokenizer).filter (·.1 < vocabularyBound)
  -- A size beyond the bound is cut down to it, where an index beyond it is dropped.
  let declared := ((config.bind ModelConfig.declaredSize?).map (min vocabularyBound)).getD 0
  let size := max (max declared (sizeAbove (base.map (·.1) ++ added.map (·.1)))) 1
  let vocabulary := Vocabulary.ofArray
    -- Added tokens are written last, so their surfaces stay.
    (fillSlots size (base ++ added.map fun (i, s, _) => (i, s)))
  let ends := extraEnds ++ (tokenizerConfig.bind TokenizerConfig.endSurface?).toList
  let lexicon : Lexicon := {
    vocabulary := vocabulary
    encoding := encodingOf tokenizer.decoder
    stop := stopTokens vocabulary ends }
  lexicon.withSpecial ((added.filter (·.2.2)).map (·.1.toUInt32))

def ModelFiles.reconcile (m : ModelFiles) (extraEnds : List String) : Lexicon :=
  GuidedDecoding.reconcile extraEnds m.modelConfig m.tokenizerConfig m.tokenizer

end GuidedDecoding
