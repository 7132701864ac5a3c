import GuidedDecoding.Proofs.Session.Params
import GuidedDecoding.Proofs.Session.Pattern

/-!
# The pieces of an input

A session reads its input in pieces, but for the last token, which the first step reads. For a model to which it
makes no difference whether tokens are read at once or one part after the other, the size of the pieces changes
nothing about a generation (`run_of_prefillStep`): no token of the input is read twice and none is left out.
-/

namespace GuidedDecoding

namespace LanguageModel

variable {κ : Type} {m : LanguageModel κ}

/-- Tokens that are read one part after the other leave the same cache, or fail in the same way, as if they were
read at once. The scores are dropped where an input is read. -/
def IsCompositional (m : LanguageModel κ) : Prop :=
  ∀ (a b : List TokenId) (cache : κ), a ≠ [] → b ≠ [] → m.read [a ++ b] cache = m.read [a, b] cache

/-- The first list is read alone, and the others behind it. -/
theorem read_cons (m : LanguageModel κ) (ids : List TokenId) (rest : List (List TokenId)) (cache : κ) :
    m.read (ids :: rest) cache =
      match m.read [ids] cache with
      | (cache, .ok ()) => m.read rest cache
      | (cache, .error e) => (cache, .error e) := by
  rw [read, read]
  rcases m.forward ids cache with ⟨cache', e | output⟩ <;> rfl

/-- The parts may be read at once. -/
theorem IsCompositional.read_flatten (h : m.IsCompositional) {parts : List (List TokenId)}
    (hparts : ∀ ids ∈ parts, ids ≠ []) (hne : parts ≠ []) (cache : κ) :
    m.read parts cache = m.read [parts.flatten] cache := by
  induction parts generalizing cache with
  | nil => exact absurd rfl hne
  | cons ids rest ih =>
    rw [List.forall_mem_cons] at hparts
    cases rest with
    | nil => rw [List.flatten_singleton]
    | cons next rest =>
      have hrest : (next :: rest).flatten ≠ [] := by
        rw [List.flatten_cons]
        exact List.append_ne_nil_of_left_ne_nil (hparts.2 next (List.mem_cons_self ..)) _
      rw [List.flatten_cons, h _ _ _ hparts.1 hrest, m.read_cons ids (next :: rest), m.read_cons ids [_]]
      rcases m.read [ids] cache with ⟨cache', e | _⟩
      · rfl
      · exact ih hparts.2 (List.cons_ne_nil _ _) cache'

end LanguageModel

namespace Session

variable {κ ρ σ : Type} {s : Session κ ρ}

/-- No piece is empty. -/
theorem ne_nil_of_mem_pieces {α : Type} {size : Nat} {l : List α} : ∀ part ∈ pieces size l, part ≠ [] := by
  fun_induction pieces size l with
  | case1 =>
    intro part hpart
    cases hpart
  | case2 a rest ih =>
    rw [List.forall_mem_cons]
    exact ⟨List.cons_ne_nil _ _, ih⟩

/-- The size of the pieces makes no difference. -/
theorem read_pieces {m : LanguageModel κ} (h : m.IsCompositional) (size size' : Nat) (ids : List TokenId)
    (cache : κ) : m.read (pieces size ids) cache = m.read (pieces size' ids) cache := by
  cases ids with
  | nil => rw [pieces, pieces]
  | cons id rest =>
    have hne (n : Nat) : pieces n (id :: rest) ≠ [] := by
      rw [pieces]
      exact List.cons_ne_nil _ _
    rw [h.read_flatten ne_nil_of_mem_pieces (hne size), h.read_flatten ne_nil_of_mem_pieces (hne size'),
      flatten_pieces, flatten_pieces]

/-- A compositional model reads the input to the same effect in any pieces. -/
theorem readsAlike_of_isCompositional (h : s.model.IsCompositional) (p : GenerationParams) : s.ReadsAlike p :=
  fun _ => read_pieces h _ _ s.input.lead s.cache

/-- Sessions of one and the same start that differ only in the number of tokens that the model is given at once
run alike. They have the same items and the same observer behind them, and the sessions that they leave differ in
nothing but that number: they have the same cache, and the same tokens, and have ended for the same reason if they
have. So collecting them has the same result. -/
theorem run_of_prefillStep {model : LanguageModel κ} (hmodel : model.IsCompositional) {gate : LogitGate}
    {sampler : Sampler ρ} {chance : ρ} {decoder : TextDecoder} {params : GenerationParams} {input : List TokenId}
    {fresh : Session κ ρ} (hfresh : start model gate sampler chance decoder params input = .ok fresh)
    (step : Nat) :
    ∃ fresh', start model gate sampler chance decoder { params with prefillStep := step } input = .ok fresh' ∧
      ∀ (cache : κ) (observe : Observer σ) (limit : Nat) (seen : σ) (r r' : Run κ ρ σ),
        (fresh.withCache cache).run observe limit seen = r →
        (fresh'.withCache cache).run observe limit seen = r' →
        r'.items = r.items ∧ r'.isOver = r.isOver ∧ r'.seen = r.seen ∧
          r'.session.cache = r.session.cache ∧ r'.session.tokens = r.session.tokens ∧
          r'.session.stopReason? = r.session.stopReason? ∧ r'.session.isAborted = r.session.isAborted ∧
          r'.session = r.session.withParams { params with prefillStep := step } ∧
          ((fresh'.withCache cache).collect? observe limit seen).result =
            ((fresh.withCache cache).collect? observe limit seen).result := by
  obtain ⟨i, hi, hs⟩ := exists_input_of_start hfresh
  refine ⟨fresh.withParams { params with prefillStep := step }, by rw [hs, start, hi]; rfl, ?_⟩
  intro cache observe limit seen r r' hr hr'
  have hread : (fresh.withCache cache).ReadsAlike { params with prefillStep := step } :=
    readsAlike_of_isCompositional (by rw [hs]; exact hmodel) _
  have hmost : params.maxTokens = (fresh.withCache cache).params.maxTokens := by
    rw [hs]
    rfl
  -- the two runs differ in their parameters only
  have hrun := run_withParams hread hmost observe limit seen
  rw [hr] at hrun
  obtain rfl := hrun.symm.trans hr'
  exact ⟨rfl, rfl, rfl, rfl, rfl, rfl, rfl, rfl, collect?_withParams hread hmost observe limit seen⟩

/-- A model that keeps the tokens that it has read. -/
def transcript : LanguageModel (List TokenId) where
  emptyCache := []
  forward ids read := (read ++ ids, .ok (.ofSingles [0, 0, 0, 0]))

def transcriptSession : Session (List TokenId) (List TokenId) where
  model := transcript
  sampler := scriptedSampler
  params := { prefillStep := 3 }
  input := ⟨[0, 1, 0, 1], 2⟩
  cache := []
  gate := .ofMatcher LogitGate.abMatcher
  chance := [0, 1, 3]
  detokenizer := { decoder := LogitGate.letters.decoder }

/-- The model has read the input and all but the last token, whatever the size of the pieces. -/
theorem run_of_prefillStep_transcript :
    transcript.IsCompositional ∧ ∃ s : Session (List TokenId) (List TokenId),
      start transcript (.ofMatcher LogitGate.abMatcher) scriptedSampler [0, 1, 3] LogitGate.letters.decoder
        { prefillStep := 0 } [0, 1, 0, 1, 2] = .ok s ∧
      ((s.withCache [2]).run .silent 4 ()).session.cache = [2, 0, 1, 0, 1, 2, 0, 1] := by
  have hmodel : transcript.IsCompositional := by
    intro a b cache _ _
    simp [LanguageModel.read, transcript]
  have hfresh : start transcript (.ofMatcher LogitGate.abMatcher) scriptedSampler [0, 1, 3]
      LogitGate.letters.decoder { prefillStep := 3 } [0, 1, 0, 1, 2] = .ok transcriptSession := rfl
  obtain ⟨s, hs, hrun⟩ := run_of_prefillStep (σ := Unit) hmodel hfresh 0
  obtain ⟨-, -, -, hcache, -⟩ := hrun [2] .silent 4 () _ _ rfl rfl
  refine ⟨hmodel, s, hs, hcache.trans ?_⟩
  cbv

end Session
end GuidedDecoding
