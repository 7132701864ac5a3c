import GuidedDecoding.Json.Token
import GuidedDecoding.Vocabulary.Basic
import GuidedDecoding.Vocabulary.Surface

/-!
# What can go wrong

A failure names its cause. Set-up failures come before a session, the others from within one or from
reading what it wrote. `Failure.message` gives the wording.
-/

namespace GuidedDecoding

inductive SetupFault where
  | stopTokenOutside (id : TokenId) (size : Nat)
  | unreadableVocabulary (encoding : SurfaceEncoding) (cause : UnreadableSurface)
  | invalidPattern
  /-- A kind of grammar for which there is no engine. -/
  | unsupportedGrammar
  | tokenizerNotFound (directory : String)
  | tokenizerUnloadable
  | other (text : String)
  deriving DecidableEq, Repr

inductive ModelFault where
  | unsupportedRank (rank : Nat)
  | endedWithoutReason
  | undecodableTokens
  | other (text : String)
  deriving DecidableEq, Repr

inductive SamplingFault where
  | noCandidate
  | other (text : String)
  deriving DecidableEq, Repr

inductive InputFault where
  | noTokens
  | unencodableText
  | other (text : String)
  deriving DecidableEq, Repr

inductive FileFault where
  | notFound
  | other (text : String)
  deriving DecidableEq, Repr

inductive TensorFault where
  /-- The number of dimensions is not what the operation needs. -/
  | rank
  /-- Sizes of dimensions do not fit. -/
  | shape
  /-- An index is outside its dimension. -/
  | index
  /-- The kinds of elements do not fit. -/
  | kind
  deriving DecidableEq, Repr

/-- A failure of the library. -/
inductive Failure where
  | setup (fault : SetupFault)
  /-- The sampler chose a token that the grammar does not permit. -/
  | tokenNotPermitted (token : TokenId)
  /-- The grammar permits no token that the model scores. -/
  | nothingPermitted
  | model (fault : ModelFault)
  | sampling (fault : SamplingFault)
  /-- The generated text is not of the shape asked for. -/
  | unparsable (flaw : Json.Flaw)
  | input (fault : InputFault)
  | file (fault : FileFault)
  /-- A document given to the library cannot be read. -/
  | document (flaw : Json.Flaw)
  | tensor (fault : TensorFault)
  deriving DecidableEq, Repr

def SetupFault.message : SetupFault → String
  | .stopTokenOutside id size =>
    s!"stop token {id.toNat} outside vocabulary of size {size}"
  | .unreadableVocabulary encoding cause =>
    s!"vocabulary does not match {encoding.name} encoding: {cause.message}"
  | .invalidPattern => "invalid regex grammar"
  | .unsupportedGrammar =>
    "JSON schema and Lark grammars require the `llguidance` feature"
  | .tokenizerNotFound directory => "tokenizer.json not found in " ++ directory
  | .tokenizerUnloadable => "Failed to load tokenizer"
  | .other text => text

def ModelFault.message : ModelFault → String
  | .unsupportedRank rank => s!"expected logits of rank 1-3, got rank {rank}"
  | .endedWithoutReason => "generation ended without a stop reason"
  | .undecodableTokens => "Failed to decode tokens"
  | .other text => text

def SamplingFault.message : SamplingFault → String
  | .noCandidate => "no finite probability to sample from"
  | .other text => text

def InputFault.message : InputFault → String
  | .noTokens => "generation needs at least one input token"
  | .unencodableText => "Failed to encode text"
  | .other text => text

def FileFault.message : FileFault → String
  | .notFound => "file not found"
  | .other text => text

def TensorFault.message : TensorFault → String
  | .rank => "unexpected number of dimensions"
  | .shape => "shapes do not fit"
  | .index => "index out of range"
  | .kind => "element types do not fit"

def Json.Flaw.message : Json.Flaw → String
  | .truncated => "the document ends early"
  | .malformed => "not a JSON document"
  | .mismatched => "not of the expected shape"

namespace Failure

def message : Failure → String
  | .setup fault => "construction error: " ++ fault.message
  | .tokenNotPermitted token =>
    s!"contract violation: token {token.toNat} is not permitted by the grammar"
  | .nothingPermitted => "contract violation: grammar permits no token in the current state"
  | .model fault => "model error: " ++ fault.message
  | .sampling fault => "sampling error: " ++ fault.message
  | .unparsable flaw => "parse error: " ++ flaw.message
  | .input fault => "invalid input: " ++ fault.message
  | .file fault => "io error: " ++ fault.message
  | .document flaw => "serialization error: " ++ flaw.message
  | .tensor fault => "tensor error: " ++ fault.message

def endsSession : Failure → Bool
  | .tokenNotPermitted _ | .nothingPermitted | .model _ | .sampling _ | .tensor _ => true
  | .setup _ | .unparsable _ | .input _ | .file _ | .document _ => false

/-- Whether the failure is about the shape of the generated text. -/
def isUnparsable : Failure → Bool
  | .unparsable _ => true
  | _ => false

end Failure

end GuidedDecoding
