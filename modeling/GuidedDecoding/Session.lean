import GuidedDecoding.Detokenizer
import GuidedDecoding.LanguageModel
import GuidedDecoding.LogitGate
import GuidedDecoding.Parameters
import GuidedDecoding.Sampling

/-!
# Sessions

A session generates the continuation of an input, token by token. First the model reads the input but for its
last token, in pieces. Then each step has the model read one token, lets the gate mask the scores behind it,
samples a token, and turns it into text.

A session ends for a reason or by a failure, and stays ended: `Session.next` then has no item. Of several
reasons at one token the first of these counts: a stop token, the number of tokens, the observer, the grammar.
-/

namespace GuidedDecoding

/-- The tokens that a session continues; there is a last one. -/
structure Input where
  /-- All tokens but the last. -/
  lead : List TokenId
  last : TokenId
  deriving DecidableEq, Repr

namespace Input

/-- The input of a list of tokens, unless it is empty. -/
def ofList? : List TokenId → Option Input
  | [] => none
  | id :: rest => some ⟨(id :: rest).dropLast, (id :: rest).getLast (List.cons_ne_nil id rest)⟩

def toList (i : Input) : List TokenId := i.lead ++ [i.last]

/-- An input has the tokens that it was made of. -/
theorem toList_of_ofList? {ids : List TokenId} {i : Input} (h : ofList? ids = some i) :
    i.toList = ids := by
  cases ids with
  | nil => simp [ofList?] at h
  | cons id rest =>
    simp only [ofList?, Option.some.injEq] at h
    subst h
    exact List.dropLast_concat_getLast _

end Input

inductive Phase where
  /-- The model has not read the input. -/
  | prefill
  | decode
  | finished (reason : StopReason)
  /-- Ended by a failure. -/
  | aborted
  deriving DecidableEq, Repr

structure Generated where
  token : TokenId
  /-- The text that is complete with this token. -/
  chunk : String
  /-- The reason to end, with the last token. -/
  finish : Option StopReason
  deriving DecidableEq, Repr

inductive Disposition where
  | proceed
  | stop
  deriving DecidableEq, Repr

/-- Looks at the tokens so far after each token; `σ` is what it has seen. -/
abbrev Observer (σ : Type) := σ → List TokenId → σ × Disposition

def Observer.silent : Observer Unit := fun _ _ => ((), .proceed)

/-- A generation; `κ` is the cache of its model and `ρ` what its sampler keeps. -/
structure Session (κ ρ : Type) where
  model : LanguageModel κ
  sampler : Sampler ρ
  params : GenerationParams
  input : Input
  cache : κ
  gate : LogitGate
  chance : ρ
  detokenizer : Detokenizer
  /-- The tokens generated so far. -/
  tokens : List TokenId := []
  phase : Phase := .prefill

namespace Session

variable {κ ρ σ : Type}

/-- A session over an input, which must have a token. -/
def start (model : LanguageModel κ) (gate : LogitGate) (sampler : Sampler ρ) (chance : ρ)
    (decoder : TextDecoder) (params : GenerationParams) (input : List TokenId) :
    Except Failure (Session κ ρ) :=
  match Input.ofList? input with
  | none => .error (.input .noTokens)
  | some input =>
    .ok { model, sampler, params, input, gate, chance, cache := model.emptyCache,
          detokenizer := { decoder } }

/-- A session with the sampler of its parameters. -/
def sampled (model : LanguageModel κ) (matcher : Matcher) (decoder : TextDecoder)
    (params : GenerationParams) (input : List TokenId) :
    Except Failure (Session κ Random.Generator) :=
  start model (.ofMatcher matcher) (Sampling.sampler params.sampling)
    (Sampling.generator params.sampling) decoder params input

def withCache (s : Session κ ρ) (cache : κ) : Session κ ρ := { s with cache }

/-! ### What a session tells -/

def stopReason? (s : Session κ ρ) : Option StopReason :=
  match s.phase with
  | .finished reason => some reason
  | _ => none

/-- Whether a failure ended the session. -/
def isAborted (s : Session κ ρ) : Bool := s.phase == .aborted

def text (s : Session κ ρ) : Except Failure String := s.detokenizer.decoder.decode s.tokens

/-- The token that the model reads next. -/
def pending (s : Session κ ρ) : TokenId := s.tokens.getLastD s.input.last

/-! ### One step -/

/-- The pieces of `size + 1` elements that a list falls into; the last one may be shorter. -/
def pieces {α : Type} (size : Nat) : List α → List (List α)
  | [] => []
  | a :: rest => (a :: rest.take size) :: pieces size (rest.drop size)
  termination_by l => l.length
  decreasing_by
    simp only [List.length_drop, List.length_cons]
    omega

/-- The pieces hold the list, in order. -/
theorem flatten_pieces {α : Type} (size : Nat) (l : List α) : (pieces size l).flatten = l := by
  fun_induction pieces size l with
  | case1 => rfl
  | case2 a rest ih => simp [ih]

/-- Has the model read the input but for its last token. -/
def prefill (s : Session κ ρ) : Session κ ρ × Except Failure Unit :=
  match s.phase with
  | .prefill =>
    -- `pieces` counts from one, so no piece is empty.
    match s.model.read (pieces (s.params.prefillStep - 1) s.input.lead) s.cache with
    | (cache, .ok ()) => ({ s with cache, phase := .decode }, .ok ())
    | (cache, .error e) => ({ s with cache }, .error e)
  | _ => (s, .ok ())

/-- The masked scores of the next token. -/
def scores (s : Session κ ρ) : Session κ ρ × Except Failure (List Float32) :=
  match s.model.forward [s.pending] s.cache with
  | (cache, .error e) => ({ s with cache }, .error e)
  | (cache, .ok output) =>
    match output.lastScores with
    | .error e => ({ s with cache }, .error e)
    | .ok row =>
      let (gate, masked) := s.gate.apply (.ofSingles row)
      ({ s with cache, gate }, masked)

def choose (s : Session κ ρ) (scores : List Float32) :
    Session κ ρ × Except Failure (TokenId × Verdict) :=
  match s.sampler.sample s.chance scores with
  | (chance, .error e) => ({ s with chance }, .error e)
  | (chance, .ok token) =>
    match s.gate.accept token with
    | (gate, .ok verdict) => ({ s with chance, gate }, .ok (token, verdict))
    -- A token that is refused has used up its chance all the same.
    | (gate, .error e) => ({ s with chance, gate }, .error e)

/-- Adds a token to those generated: the text that is complete with it. -/
def append (s : Session κ ρ) (token : TokenId) : Session κ ρ × Except Failure String :=
  let (detokenizer, chunk) := s.detokenizer.push token
  ({ s with detokenizer, tokens := s.tokens ++ [token] }, chunk)

/-- A step up to the text of its token. -/
def advance (s : Session κ ρ) : Session κ ρ × Except Failure (TokenId × Verdict × String) :=
  match s.prefill with
  | (s, .error e) => (s, .error e)
  | (s, .ok ()) =>
    match s.scores with
    | (s, .error e) => (s, .error e)
    | (s, .ok scores) =>
      match s.choose scores with
      | (s, .error e) => (s, .error e)
      | (s, .ok (token, verdict)) =>
        match s.append token with
        | (s, .error e) => (s, .error e)
        | (s, .ok chunk) => (s, .ok (token, verdict, chunk))

def isFull (s : Session κ ρ) : Bool := s.params.maxTokens.any fun most => most ≤ s.tokens.length

def finish? (s : Session κ ρ) (token : TokenId) (verdict : Verdict) (d : Disposition) :
    Option StopReason :=
  if s.gate.matcher.lexicon.isStop token then some .stopToken
  else if s.isFull then some .length
  else if d = .stop then some .callback
  else if verdict = .terminal then some .grammarComplete
  else none

/-- Ends a step: with the last token comes the text that was held back. -/
def settle (s : Session κ ρ) (token : TokenId) (verdict : Verdict) (chunk : String)
    (d : Disposition) : Session κ ρ × Except Failure Generated :=
  match s.finish? token verdict d with
  | none => (s, .ok ⟨token, chunk, none⟩)
  | some reason =>
    match s.detokenizer.flush with
    | (detokenizer, .error e) => ({ s with detokenizer }, .error e)
    | (detokenizer, .ok rest) =>
      ({ s with detokenizer, phase := .finished reason }, .ok ⟨token, chunk ++ rest, some reason⟩)

/-! ### Items -/

/-- The next token, or the failure that ends the session; nothing once it has ended. -/
def nextWith (observe : Observer σ) (seen : σ) (s : Session κ ρ) :
    Session κ ρ × σ × Option (Except Failure Generated) :=
  match s.phase with
  | .finished _ | .aborted => (s, seen, none)
  | .prefill | .decode =>
    -- Without a step the model does not even read the input.
    if s.params.maxTokens = some 0 then ({ s with phase := .finished .length }, seen, none)
    else
      match s.advance with
      | (s, .error e) => ({ s with phase := .aborted }, seen, some (.error e))
      | (s, .ok (token, verdict, chunk)) =>
        -- The observer is asked before anything is settled, also about a token that ends the session
        -- anyway.
        let (seen, disposition) := observe seen s.tokens
        match s.settle token verdict chunk disposition with
        | (s, .error e) => ({ s with phase := .aborted }, seen, some (.error e))
        | (s, .ok g) => (s, seen, some (.ok g))

/-- A session that has ended for a reason stays as it is. -/
theorem nextWith_finished (observe : Observer σ) (seen : σ) {s : Session κ ρ} {reason : StopReason}
    (h : s.phase = .finished reason) : s.nextWith observe seen = (s, seen, none) := by
  simp [nextWith, h]

/-- A session that a failure ended stays as it is. -/
theorem nextWith_aborted (observe : Observer σ) (seen : σ) {s : Session κ ρ}
    (h : s.phase = .aborted) : s.nextWith observe seen = (s, seen, none) := by
  simp [nextWith, h]

def next (s : Session κ ρ) : Session κ ρ × Option (Except Failure Generated) :=
  match s.nextWith .silent () with
  | (s, _, item) => (s, item)

end Session

end GuidedDecoding
