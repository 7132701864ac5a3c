import GuidedDecoding.Vocabulary.Metadata

/-!
# Parameters of a generation

How tokens are sampled, how a session runs, why it ends, and how an engine is configured. In a
document every field may be absent and then has its default.
-/

namespace GuidedDecoding

open Json (Reader)

structure SamplingParams where
  /-- Scores are divided by it; zero or below means the best score wins. -/
  temperature : Float32 := 1
  /-- The share of probability to choose from, most probable tokens first; `1` means all. -/
  topP : Float32 := 1
  /-- The number of tokens to choose from; `0` means all. -/
  topK : Nat := 0
  seed : Option Nat := none
  deriving Inhabited

namespace SamplingParams

/-- The best score wins. -/
def greedy : SamplingParams := { temperature := 0 }

def atTemperature (t : Float32) : SamplingParams := { temperature := t }

def withSeed (p : SamplingParams) (seed : Nat) : SamplingParams := { p with seed := some seed }

/-- Whether the best score wins. -/
def isGreedy (p : SamplingParams) : Bool := p.temperature ≤ 0

end SamplingParams

structure GenerationParams where
  sampling : SamplingParams := {}
  /-- How many tokens of the prompt the model is given at once. -/
  prefillStep : Nat := 512
  /-- How many tokens are generated at most. -/
  maxTokens : Option Nat := none
  deriving Inhabited

/-- Why a session ended. -/
inductive StopReason where
  /-- A stop token was generated. -/
  | stopToken
  /-- As many tokens as allowed were generated. -/
  | length
  /-- The caller asked to stop. -/
  | callback
  /-- The grammar is complete and nothing can follow. -/
  | grammarComplete
  deriving DecidableEq, Repr, Inhabited

def StopReason.name : StopReason → String
  | .stopToken => "stop_token"
  | .length => "length"
  | .callback => "callback"
  | .grammarComplete => "grammar_complete"

structure Completion where
  text : String
  tokens : List TokenId
  promptCount : Nat
  generatedCount : Nat
  stopReason : StopReason
  deriving DecidableEq, Repr, Inhabited

def defaultStreamCapacity : Nat := 16

/-- How an engine is configured. -/
structure EngineConfig where
  /-- The directory with the metadata of the model. -/
  modelDirectory : Option String := none
  parameters : GenerationParams := {}
  /-- Surfaces of further tokens that end a generation. -/
  extraEnds : List String := []
  /-- Whether the tokenizer adds its special tokens to a prompt. -/
  addSpecialTokens : Bool := true
  streamCapacity : Nat := defaultStreamCapacity
  deriving Inhabited

/-! ### Reading -/

/-- A field that may be absent but not `null`. -/
def plainField (name : String) (isSet : σ → Bool) (set : σ → α → σ) (read : Reader α) :
    Reader.Field σ where
  name := name
  isSet := isSet
  read s := Reader.refine read fun a => some (set s a)

def SamplingParams.reader : Reader SamplingParams :=
  Reader.record (none, none, none, none)
    [ plainField "temperature" (·.1.isSome) (fun s a => (some a, s.2)) Reader.single,
      plainField "top_p" (·.2.1.isSome) (fun s a => (s.1, some a, s.2.2)) Reader.single,
      plainField "top_k" (·.2.2.1.isSome) (fun s a => (s.1, s.2.1, some a, s.2.2.2)) Reader.word64,
      plainField "seed" (·.2.2.2.isSome) (fun s a => (s.1, s.2.1, s.2.2.1, some a))
        (Reader.optional Reader.word64) ]
    fun (temperature, topP, topK, seed) =>
      some ⟨temperature.getD 1, topP.getD 1, topK.getD 0, seed.join⟩

def GenerationParams.reader : Reader GenerationParams :=
  Reader.record (none, none, none)
    [ plainField "sampling" (·.1.isSome) (fun s a => (some a, s.2)) SamplingParams.reader,
      plainField "prefill_step_size" (·.2.1.isSome) (fun s a => (s.1, some a, s.2.2)) Reader.word64,
      plainField "max_tokens" (·.2.2.isSome) (fun s a => (s.1, s.2.1, some a))
        (Reader.optional Reader.word64) ]
    fun (sampling, step, budget) => some ⟨sampling.getD {}, step.getD 512, budget.join⟩

def StopReason.reader : Reader StopReason :=
  Reader.choice ([.stopToken, .length, .callback, .grammarComplete].map fun r => (r.name, r))

def tokenIdReader : Reader TokenId :=
  Reader.refine (Reader.natural (Nat.pow 2 32 - 1)) fun n => some n.toUInt32

/-- Reads what a session has generated; no field may be absent. -/
def Completion.reader : Reader Completion :=
  Reader.record (none, none, none, none, none)
    [ plainField "text" (·.1.isSome) (fun s a => (some a, s.2)) Reader.text,
      plainField "tokens" (·.2.1.isSome) (fun s a => (s.1, some a, s.2.2))
        (Reader.list tokenIdReader),
      plainField "num_prompt_tokens" (·.2.2.1.isSome)
        (fun s a => (s.1, s.2.1, some a, s.2.2.2)) Reader.word64,
      plainField "num_generated_tokens" (·.2.2.2.1.isSome)
        (fun s a => (s.1, s.2.1, s.2.2.1, some a, s.2.2.2.2)) Reader.word64,
      plainField "stop_reason" (·.2.2.2.2.isSome)
        (fun s a => (s.1, s.2.1, s.2.2.1, s.2.2.2.1, some a)) StopReason.reader ]
    fun (text, tokens, prompt, generated, reason) =>
      return ⟨← text, ← tokens, ← prompt, ← generated, ← reason⟩

def EngineConfig.reader : Reader EngineConfig :=
  Reader.record (none, none, none, none, none)
    [ plainField "model_dir" (·.1.isSome) (fun s a => (some a, s.2)) (Reader.optional Reader.text),
      plainField "parameters" (·.2.1.isSome) (fun s a => (s.1, some a, s.2.2))
        GenerationParams.reader,
      plainField "extra_eos_tokens" (·.2.2.1.isSome) (fun s a => (s.1, s.2.1, some a, s.2.2.2))
        (Reader.list Reader.text),
      plainField "add_special_tokens" (·.2.2.2.1.isSome)
        (fun s a => (s.1, s.2.1, s.2.2.1, some a, s.2.2.2.2)) Reader.bool,
      plainField "stream_buffer" (·.2.2.2.2.isSome)
        (fun s a => (s.1, s.2.1, s.2.2.1, s.2.2.2.1, some a)) Reader.word64 ]
    fun (directory, parameters, ends, special, capacity) =>
      some ⟨directory.join, parameters.getD {}, ends.getD [], special.getD true,
        capacity.getD defaultStreamCapacity⟩

def SurfaceEncoding.reader : Reader SurfaceEncoding :=
  Reader.choice [("Plain", .plain), ("ByteFallback", .byteFallback), ("ByteLevel", .byteLevel)]

end GuidedDecoding
