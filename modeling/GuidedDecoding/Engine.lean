import GuidedDecoding.Description
import GuidedDecoding.Session.Run
import GuidedDecoding.Tokenizer
import GuidedDecoding.Vocabulary.Reconcile

/-!
# Engines

An engine holds what all requests share: a model, a lexicon, perhaps a tokenizer, and a configuration. It is
set up from a lexicon, or from a model directory, which has a tokenizer too; only then prompts may be text, and
the tokenizer makes the text of the generated tokens.

A request is answered by a session. `Engine.execute` runs it to its end, `Engine.value` reads its text as a
value, and `Engine.stream` has it produce ahead of its reader.
-/

namespace GuidedDecoding

open Json (Reader)

inductive EngineFault where
  | modelMissing
  | vocabularyMissing
  /-- A prompt is text, and there is no tokenizer. -/
  | tokenizerMissing
  | configUnreadable (path : String) (cause : Failure)
  | configUnparsable (path : String) (cause : Failure)
  | metadataUnusable (directory : String) (cause : Failure)
  /-- The generated text cannot be read as the value asked for. -/
  | shape (text : String) (flaw : Json.Flaw)
  | failure (cause : Failure)
  deriving DecidableEq, Repr

namespace EngineFault

/-- What was being done, or what is missing; nothing for a failure that speaks for itself. -/
def context : EngineFault → List String
  | .modelMissing => ["a language model is required"]
  | .vocabularyMissing => ["either a model directory or a tokenizer info is required"]
  | .tokenizerMissing => ["text prompts need a tokenizer; load a model_dir"]
  | .configUnreadable path _ => ["reading engine config " ++ path]
  | .configUnparsable path _ => ["parsing engine config " ++ path]
  | .metadataUnusable directory _ => ["loading model metadata from " ++ directory]
  | .shape text _ => ["output is not the requested shape: " ++ text]
  | .failure _ => []

def cause? : EngineFault → Option Failure
  | .modelMissing | .vocabularyMissing | .tokenizerMissing => none
  | .configUnreadable _ cause | .configUnparsable _ cause | .metadataUnusable _ cause
  | .failure cause => some cause
  | .shape _ flaw => some (.unparsable flaw)

end EngineFault

def EngineConfig.ofFile (path : String) (content : Option String) : Except EngineFault EngineConfig :=
  match content with
  | none => .error (.configUnreadable path (.file .notFound))
  | some text =>
    match readDocument EngineConfig.reader text with
    | .ok config => .ok config
    | .error e => .error (.configUnparsable path e)

/-- What an engine is set up from; `κ` is the cache of its model. -/
structure EngineSetup (κ : Type) where
  config : EngineConfig := {}
  model : Option (LanguageModel κ) := none
  /-- A lexicon in place of the metadata in a model directory. -/
  lexicon : Option Lexicon := none

/-- What all requests share. -/
structure Engine (κ : Type) where
  config : EngineConfig
  model : LanguageModel κ
  lexicon : Lexicon
  tokenizer : Option Tokenizer

/-- What a session is to continue. -/
inductive Prompt where
  | text (text : String)
  | tokens (ids : List TokenId)
  deriving DecidableEq, Repr

/-- The demand on generated text, compiled or not. -/
inductive Demand where
  | grammar (grammar : Grammar)
  | constraint (constraint : Constraint)

def Demand.compile : Demand → Except Failure Constraint
  | .grammar g => g.compile
  | .constraint c => .ok c

structure Request (κ : Type) where
  prompt : Prompt
  params : GenerationParams
  demand : Demand := .grammar .free
  /-- The cache to continue from. -/
  cache : Option κ := none

namespace Engine

variable {κ σ : Type}

/-- The engine of a setup; `directory` gives the content of a model directory by its path, and `read?` reads the
document of a tokenizer. -/
def build (read? : String → Option Tokenizer) (directory : String → Directory) (setup : EngineSetup κ) :
    Except EngineFault (Engine κ) :=
  match setup.model, setup.lexicon, setup.config.modelDirectory with
  | none, _, _ => .error .modelMissing
  | some model, some lexicon, _ =>
    .ok { config := setup.config, model, lexicon, tokenizer := none }
  | some _, none, none => .error .vocabularyMissing
  | some model, none, some path =>
    match ModelFiles.load (directory path) with
    | .error e => .error (.metadataUnusable path e)
    | .ok files =>
      match Tokenizer.load read? (directory path) with
      | .error e => .error (.failure e)
      | .ok tokenizer =>
        .ok { config := setup.config, model, lexicon := files.reconcile setup.config.extraEnds,
              tokenizer := some tokenizer }

def request (e : Engine κ) (prompt : Prompt) : Request κ := { prompt, params := e.config.parameters }

def schemaRequest (e : Engine κ) (prompt : String) (schema : String) (indent : Option Nat) :
    Request κ :=
  { e.request (.text prompt) with demand := .grammar (.jsonSchema schema indent) }

def encode (e : Engine κ) : Prompt → Except EngineFault (List TokenId)
  | .tokens ids => .ok ids
  | .text text =>
    match e.tokenizer with
    | some t => (t.encode text e.config.addSpecialTokens).mapError .failure
    | none => .error .tokenizerMissing

/-- What turns generated tokens into text: the tokenizer, or else the lexicon. -/
def decoder (e : Engine κ) : TextDecoder :=
  match e.tokenizer with
  | some t => t.decoder
  | none => e.lexicon.decoder

def session (e : Engine κ) (r : Request κ) : Except EngineFault (Session κ Random.Generator) := do
  let input ← e.encode r.prompt
  let constraint ← r.demand.compile.mapError .failure
  let matcher ← (Matcher.start e.lexicon constraint).mapError .failure
  let session ← (Session.sampled e.model matcher e.decoder r.params input).mapError .failure
  return match r.cache with
    | some cache => session.withCache cache
    | none => session

/-- Runs a request to its end, if that comes within `limit` tokens. -/
def execute (e : Engine κ) (observe : Observer σ) (limit : Nat) (seen : σ) (r : Request κ) :
    Except EngineFault (Collected κ Random.Generator σ) :=
  (e.session r).map fun s => s.collect? observe limit seen

def valueOf {α : Type} (reader : Reader α) (c : Completion) : Except EngineFault α :=
  (c.value reader).mapError (.shape c.text)

/-- Runs a request to its end and reads its text as a value; the session is the one behind it. -/
def value {α : Type} (reader : Reader α) (limit : Nat) (e : Engine κ) (r : Request κ) :
    Except EngineFault (Session κ Random.Generator × Option (Except EngineFault α)) :=
  (e.execute .silent limit () r).map fun c =>
    (c.session, c.result.map fun result => (result.mapError .failure).bind (valueOf reader))

def stream (e : Engine κ) (r : Request κ) : Except EngineFault (ItemStream κ Random.Generator) :=
  (e.session r).map fun s => .ofSession s e.config.streamCapacity

def describe (e : Engine κ) : String :=
  Text.record "Engine" [("config", e.config.describe), ("vocab_size", toString e.lexicon.size)]

end Engine

end GuidedDecoding
