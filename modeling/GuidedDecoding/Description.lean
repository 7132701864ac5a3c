import GuidedDecoding.Number.Shortest
import GuidedDecoding.Parameters
import GuidedDecoding.Session
import GuidedDecoding.Text.Quoted
import GuidedDecoding.Text.Record

/-!
# Descriptions

Parameters, configurations and sessions on one line, for diagnostics.
-/

namespace GuidedDecoding

def SamplingParams.describe (p : SamplingParams) : String :=
  Text.record "SamplingParams"
    [("temperature", singleText p.temperature), ("top_p", singleText p.topP),
     ("top_k", toString p.topK), ("seed", Text.optional (p.seed.map toString))]

def GenerationParams.describe (p : GenerationParams) : String :=
  Text.record "GenerateParameters"
    [("sampling", p.sampling.describe), ("prefill_step_size", toString p.prefillStep),
     ("max_tokens", Text.optional (p.maxTokens.map toString))]

def EngineConfig.describe (c : EngineConfig) : String :=
  Text.record "EngineConfig"
    [("model_dir", Text.optional (c.modelDirectory.map Text.quoted)),
     ("parameters", c.parameters.describe),
     ("extra_eos_tokens", Text.listed (c.extraEnds.map Text.quoted)),
     ("add_special_tokens", toString c.addSpecialTokens),
     ("stream_buffer", toString c.streamCapacity)]

def StopReason.describe : StopReason → String
  | .stopToken => "StopToken"
  | .length => "Length"
  | .callback => "Callback"
  | .grammarComplete => "GrammarComplete"

def Phase.describe : Phase → String
  | .prefill => "Prefill"
  | .decode => "Decode"
  | .finished reason => "Finished(" ++ reason.describe ++ ")"
  | .aborted => "Aborted"

/-- A session on one line. -/
def Session.describe {κ ρ : Type} (s : Session κ ρ) : String :=
  Text.record "TokenIterator"
    [("state", s.phase.describe), ("input_len", toString s.input.toList.length),
     ("tokens", Text.listed (s.tokens.map fun id => toString id.toNat)),
     ("params", s.params.describe)]

end GuidedDecoding
