import GuidedDecoding.Session.Run
import GuidedDecoding.Proofs.LogitGate

/-!
# What a step of a session does

A step has two parts. Until a token is sampled it changes nothing but what the model and the sampler keep, the
mask of the gate and the phase (`Session.Keeps`); this part is `Session.propose`. Then the token is offered to
the gate, and only if that accepts it, it is added to the tokens of the session.

`Session.Move` lists everything that a step can do, and `Session.nextWith_move` says that there is nothing
else. Whatever holds along the runs of a session is proved by cases on it.
-/

namespace GuidedDecoding

namespace Session

variable {κ ρ σ : Type}

def IsRunning (s : Session κ ρ) : Prop := s.phase = .prefill ∨ s.phase = .decode

/-! ### The start -/

section Start

variable {model : LanguageModel κ} {gate : LogitGate} {sampler : Sampler ρ} {chance : ρ} {decoder : TextDecoder}
  {params : GenerationParams} {input : List TokenId} {s : Session κ ρ}

/-- A session that has been started is made of what it was started with. -/
theorem exists_input_of_start (h : start model gate sampler chance decoder params input = .ok s) :
    ∃ i, Input.ofList? input = some i ∧ s =
      { model, sampler, params, input := i, gate, chance, cache := model.emptyCache, detokenizer := { decoder } } := by
  unfold start at h
  cases hinput : Input.ofList? input with
  | none =>
    rw [hinput] at h
    cases h
  | some i =>
    rw [hinput] at h
    cases h
    exact ⟨i, rfl, rfl⟩

/-- A session starts before its first token, with the gate and the decoder that it was given. -/
theorem start_eq_ok (h : start model gate sampler chance decoder params input = .ok s) :
    s.gate = gate ∧ s.detokenizer = { decoder } ∧ s.tokens = [] ∧ s.phase = .prefill := by
  obtain ⟨i, -, rfl⟩ := exists_input_of_start h
  exact ⟨rfl, rfl, rfl, rfl⟩

theorem params_of_start (h : start model gate sampler chance decoder params input = .ok s) : s.params = params := by
  obtain ⟨i, -, rfl⟩ := exists_input_of_start h
  rfl

end Start

/-! ### Up to the token -/

def propose (s : Session κ ρ) : Session κ ρ × Except Failure TokenId :=
  match s.prefill with
  | (s, .error e) => (s, .error e)
  | (s, .ok ()) =>
    match s.scores with
    | (s, .error e) => (s, .error e)
    | (s, .ok scores) =>
      match s.sampler.sample s.chance scores with
      | (chance, .error e) => ({ s with chance }, .error e)
      | (chance, .ok token) => ({ s with chance }, .ok token)

def offer (s : Session κ ρ) (token : TokenId) :
    Session κ ρ × Except Failure (TokenId × Verdict × String) :=
  match s.gate.accept token with
  | (gate, .error e) => ({ s with gate }, .error e)
  | (gate, .ok verdict) =>
    match ({ s with gate } : Session κ ρ).append token with
    | (s, .error e) => (s, .error e)
    | (s, .ok chunk) => (s, .ok (token, verdict, chunk))

/-- A step proposes a token and then offers it. -/
theorem advance_eq (s : Session κ ρ) :
    s.advance =
      match s.propose with
      | (t, .error e) => (t, .error e)
      | (t, .ok token) => t.offer token := by
  unfold advance propose
  rcases s.prefill with ⟨s₁, e | _⟩
  · rfl
  · dsimp only
    rcases s₁.scores with ⟨s₂, e | scores⟩
    · rfl
    · dsimp only
      unfold choose offer
      rcases s₂.sampler.sample s₂.chance scores with ⟨chance, e | token⟩
      · rfl
      · dsimp only
        rcases s₂.gate.accept token with ⟨gate, e | verdict⟩ <;> rfl

/-- The two sessions differ at most in what the model and the sampler keep, in the mask of the gate and in the
phase. -/
structure Keeps (s t : Session κ ρ) : Prop where
  model_eq : t.model = s.model
  sampler_eq : t.sampler = s.sampler
  params_eq : t.params = s.params
  input_eq : t.input = s.input
  matcher_eq : t.gate.matcher = s.gate.matcher
  detokenizer_eq : t.detokenizer = s.detokenizer
  tokens_eq : t.tokens = s.tokens

variable {s t u : Session κ ρ} {token : TokenId} {e : Failure}

theorem Keeps.refl (s : Session κ ρ) : Keeps s s := ⟨rfl, rfl, rfl, rfl, rfl, rfl, rfl⟩

theorem Keeps.trans (h : Keeps s t) (h' : Keeps t u) : Keeps s u :=
  ⟨h'.model_eq.trans h.model_eq, h'.sampler_eq.trans h.sampler_eq, h'.params_eq.trans h.params_eq,
    h'.input_eq.trans h.input_eq, h'.matcher_eq.trans h.matcher_eq,
    h'.detokenizer_eq.trans h.detokenizer_eq, h'.tokens_eq.trans h.tokens_eq⟩

theorem keeps_prefill (s : Session κ ρ) : Keeps s s.prefill.1 := by
  unfold prefill
  cases s.phase with
  | prefill =>
    dsimp only
    rcases s.model.read (pieces (s.params.prefillStep - 1) s.input.lead) s.cache with ⟨cache, e | _⟩ <;>
      exact ⟨rfl, rfl, rfl, rfl, rfl, rfl, rfl⟩
  | decode => exact .refl s
  | finished => exact .refl s
  | aborted => exact .refl s

/-- A session that is running has read its input behind `prefill`. -/
theorem phase_prefill (hs : s.IsRunning) {u : Unit} (h : s.prefill = (t, .ok u)) : t.phase = .decode := by
  unfold prefill at h
  rcases hs with hphase | hphase
  · rw [hphase] at h
    dsimp only at h
    rcases hread : s.model.read (pieces (s.params.prefillStep - 1) s.input.lead) s.cache with ⟨cache, e | _⟩
    · rw [hread] at h
      cases h
    · rw [hread] at h
      cases h
      rfl
  · rw [hphase] at h
    cases h
    exact hphase

theorem keeps_scores (s : Session κ ρ) : Keeps s s.scores.1 := by
  unfold scores
  rcases s.model.forward [s.pending] s.cache with ⟨cache, e | output⟩
  · exact ⟨rfl, rfl, rfl, rfl, rfl, rfl, rfl⟩
  · dsimp only
    cases output.lastScores with
    | error e => exact ⟨rfl, rfl, rfl, rfl, rfl, rfl, rfl⟩
    | ok row =>
      have hmatcher : (s.gate.apply (.ofSingles row)).1.matcher = s.gate.matcher := by
        rw [LogitGate.apply_fst]
      exact ⟨rfl, rfl, rfl, rfl, hmatcher, rfl, rfl⟩

/-- The scores are masked by what the matcher permits. -/
theorem mask_scores {scores : List Float32} (h : s.scores = (t, .ok scores)) :
    t.gate.mask = s.gate.matcher.mask ∧ t.phase = s.phase := by
  unfold Session.scores at h
  rcases hforward : s.model.forward [s.pending] s.cache with ⟨cache, e | output⟩
  · rw [hforward] at h
    cases h
  · rw [hforward] at h
    dsimp only at h
    cases hrow : output.lastScores with
    | error e =>
      rw [hrow] at h
      cases h
    | ok row =>
      rw [hrow] at h
      dsimp only at h
      rw [LogitGate.apply_fst, Prod.mk.injEq] at h
      rw [← h.1]
      exact ⟨rfl, rfl⟩

/-- Proposing a token does not touch what has been generated. -/
theorem keeps_propose (s : Session κ ρ) : Keeps s s.propose.1 := by
  unfold propose
  have hprefill := keeps_prefill s
  generalize s.prefill = read at hprefill ⊢
  obtain ⟨s₁, e | _⟩ := read
  · exact hprefill
  · have hscores := keeps_scores s₁
    dsimp only at hprefill ⊢
    generalize s₁.scores = scored at hscores ⊢
    obtain ⟨s₂, e | scores⟩ := scored
    · exact hprefill.trans hscores
    · have h := hprefill.trans hscores
      dsimp only
      rcases s₂.sampler.sample s₂.chance scores with ⟨chance, e | token⟩ <;>
        exact ⟨h.model_eq, h.sampler_eq, h.params_eq, h.input_eq, h.matcher_eq, h.detokenizer_eq,
          h.tokens_eq⟩

theorem keeps_of_propose {answer : Except Failure TokenId} (h : s.propose = (t, answer)) : Keeps s t := by
  have hkeeps := keeps_propose s
  rw [h] at hkeeps
  exact hkeeps

/-- A token is sampled with the mask of what the matcher permits. -/
theorem mask_propose (hs : s.IsRunning) (h : s.propose = (t, .ok token)) :
    t.gate.mask = s.gate.matcher.mask ∧ t.phase = .decode := by
  -- each of the three calls may fail; none of them failed
  unfold propose at h
  have hkeeps := keeps_prefill s
  rcases hprefill : s.prefill with ⟨s₁, e | _⟩
  · rw [hprefill] at h
    cases h
  · rw [hprefill] at h hkeeps
    dsimp only at h hkeeps
    rcases hscores : s₁.scores with ⟨s₂, e | scores⟩
    · rw [hscores] at h
      cases h
    · obtain ⟨hmask, hphase⟩ := mask_scores hscores
      rw [hkeeps.matcher_eq] at hmask
      rw [phase_prefill hs hprefill] at hphase
      rw [hscores] at h
      dsimp only at h
      rcases hsample : s₂.sampler.sample s₂.chance scores with ⟨chance, e | token'⟩
      · rw [hsample] at h
        cases h
      · rw [hsample] at h
        cases h
        exact ⟨hmask, hphase⟩

/-! ### The whole step -/

/-- A step of the session offers the token to the gate, and the session is `t` then. -/
structure Offers (s t : Session κ ρ) (token : TokenId) : Prop where
  isRunning : s.IsRunning
  mayGenerate : s.params.maxTokens ≠ some 0
  propose_eq : s.propose = (t, .ok token)

theorem Offers.keeps (h : s.Offers t token) : Keeps s t := keeps_of_propose h.propose_eq

def take (s : Session κ ρ) (token : TokenId) (detokenizer : Detokenizer) : Session κ ρ :=
  { s with
    gate := { s.gate with matcher := (s.gate.matcher.accept token).1 }
    detokenizer
    tokens := s.tokens ++ [token] }

/-- Everything that a step can do: the session and the observer behind it, and its item. -/
inductive Move (observe : Observer σ) (seen : σ) (s : Session κ ρ) :
    Session κ ρ → σ → Option Item → Prop where
  | ended : ¬ s.IsRunning → Move observe seen s s seen none
  /-- No token may be generated at all. -/
  | full : s.IsRunning → s.params.maxTokens = some 0 →
      Move observe seen s { s with phase := .finished .length } seen none
  /-- The model or the sampler fails. -/
  | failed {t : Session κ ρ} {e : Failure} : s.IsRunning → s.params.maxTokens ≠ some 0 →
      s.propose = (t, .error e) →
      Move observe seen s { t with phase := .aborted } seen (some (.error e))
  | refused {t : Session κ ρ} {token : TokenId} : s.Offers t token →
      (t.gate.matcher.accept token).2 = .rejected →
      Move observe seen s { t with phase := .aborted } seen (some (.error (.tokenNotPermitted token)))
  /-- The text of the tokens cannot be told. -/
  | unreadable {t : Session κ ρ} {token : TokenId} {d : Detokenizer} {e : Failure} : s.Offers t token →
      (t.gate.matcher.accept token).2 ≠ .rejected → t.detokenizer.push token = (d, .error e) →
      Move observe seen s { t.take token d with phase := .aborted } seen (some (.error e))
  | generated {t : Session κ ρ} {token : TokenId} {d : Detokenizer} {chunk : String} :
      s.Offers t token → (t.gate.matcher.accept token).2 ≠ .rejected →
      t.detokenizer.push token = (d, .ok chunk) →
      (t.take token d).finish? token (t.gate.matcher.accept token).2
        (observe seen (t.tokens ++ [token])).2 = none →
      Move observe seen s (t.take token d) (observe seen (t.tokens ++ [token])).1
        (some (.ok ⟨token, chunk, none⟩))
  /-- The text that was held back at the end cannot be told. -/
  | unflushed {t : Session κ ρ} {token : TokenId} {d d' : Detokenizer} {chunk : String} {e : Failure} :
      s.Offers t token → (t.gate.matcher.accept token).2 ≠ .rejected →
      t.detokenizer.push token = (d, .ok chunk) → d.flush = (d', .error e) →
      Move observe seen s { t.take token d' with phase := .aborted }
        (observe seen (t.tokens ++ [token])).1 (some (.error e))
  | finished {t : Session κ ρ} {token : TokenId} {d d' : Detokenizer} {chunk rest : String}
      {reason : StopReason} :
      s.Offers t token → (t.gate.matcher.accept token).2 ≠ .rejected →
      t.detokenizer.push token = (d, .ok chunk) →
      (t.take token d).finish? token (t.gate.matcher.accept token).2
        (observe seen (t.tokens ++ [token])).2 = some reason →
      d.flush = (d', .ok rest) →
      Move observe seen s { t.take token d' with phase := .finished reason }
        (observe seen (t.tokens ++ [token])).1 (some (.ok ⟨token, chunk ++ rest, some reason⟩))

/-- A session that has ended stays as it is. -/
theorem nextWith_of_not_isRunning (hs : ¬ s.IsRunning) (observe : Observer σ) (seen : σ) :
    s.nextWith observe seen = (s, seen, none) := by
  unfold IsRunning at hs
  cases hphase : s.phase with
  | prefill => exact absurd (Or.inl hphase) hs
  | decode => exact absurd (Or.inr hphase) hs
  | finished reason => exact nextWith_finished observe seen hphase
  | aborted => exact nextWith_aborted observe seen hphase

/-- A session that is running takes a step unless it may not generate anything. -/
theorem nextWith_of_isRunning (hs : s.IsRunning) (hmost : s.params.maxTokens ≠ some 0)
    (observe : Observer σ) (seen : σ) :
    s.nextWith observe seen =
      match s.advance with
      | (s, .error e) => ({ s with phase := .aborted }, seen, some (.error e))
      | (s, .ok (token, verdict, chunk)) =>
        let (seen, disposition) := observe seen s.tokens
        match s.settle token verdict chunk disposition with
        | (s, .error e) => ({ s with phase := .aborted }, seen, some (.error e))
        | (s, .ok g) => (s, seen, some (.ok g)) := by
  unfold nextWith
  rcases hs with hphase | hphase <;>
  · rw [hphase]
    exact if_neg hmost

/-- A session that may not generate anything ends without a step. -/
theorem nextWith_full (hs : s.IsRunning) (hmost : s.params.maxTokens = some 0) (observe : Observer σ)
    (seen : σ) : s.nextWith observe seen = ({ s with phase := .finished .length }, seen, none) := by
  unfold nextWith
  rcases hs with hphase | hphase <;>
  · rw [hphase]
    exact if_pos hmost

/-- A step that offers a token makes one of the moves. -/
theorem nextWith_of_offers (h : s.Offers t token) (observe : Observer σ) (seen : σ) :
    Move observe seen s (s.nextWith observe seen).1 (s.nextWith observe seen).2.1
      (s.nextWith observe seen).2.2 := by
  rw [nextWith_of_isRunning h.isRunning h.mayGenerate, advance_eq, h.propose_eq]
  dsimp only
  unfold offer
  -- the moves are told apart by what rejects the token, fails to read it, goes on, or fails at the end
  by_cases hreject : (t.gate.matcher.accept token).2 = .rejected
  · rw [LogitGate.accept_of_rejected hreject]
    exact .refused h hreject
  · rw [LogitGate.accept_of_ne_rejected hreject]
    dsimp only [append]
    rcases hpush : t.detokenizer.push token with ⟨d, e | chunk⟩
    · exact .unreadable h hreject hpush
    · have htake : ({ t with
          gate := { t.gate with matcher := (t.gate.matcher.accept token).1 }
          detokenizer := d
          tokens := t.tokens ++ [token] } : Session κ ρ) = t.take token d := rfl
      dsimp only
      rw [htake]
      unfold settle
      cases hfinish : (t.take token d).finish? token (t.gate.matcher.accept token).2
          (observe seen (t.tokens ++ [token])).2 with
      | none => exact .generated h hreject hpush hfinish
      | some reason =>
        dsimp only
        have hflush_eq : (t.take token d).detokenizer.flush = d.flush := rfl
        rw [hflush_eq]
        rcases hflush : d.flush with ⟨d', e | rest⟩
        · exact .unflushed h hreject hpush hflush
        · exact .finished h hreject hpush hfinish hflush

/-- A token that the gate does not accept fails the step, and nothing is added. -/
theorem nextWith_of_rejected (h : s.Offers t token)
    (hreject : (t.gate.matcher.accept token).2 = .rejected) (observe : Observer σ) (seen : σ) :
    s.nextWith observe seen =
      ({ t with phase := .aborted }, seen, some (.error (.tokenNotPermitted token))) := by
  rw [nextWith_of_isRunning h.isRunning h.mayGenerate, advance_eq, h.propose_eq]
  dsimp only
  unfold offer
  rw [LogitGate.accept_of_rejected hreject]

/-- A step in which the model or the sampler fails. -/
theorem nextWith_of_failed (hs : s.IsRunning) (hmost : s.params.maxTokens ≠ some 0)
    (hpropose : s.propose = (t, .error e)) (observe : Observer σ) (seen : σ) :
    s.nextWith observe seen = ({ t with phase := .aborted }, seen, some (.error e)) := by
  rw [nextWith_of_isRunning hs hmost, advance_eq, hpropose]

/-- A step with a token whose text cannot be told. -/
theorem nextWith_of_unreadable (h : s.Offers t token) (hv : (t.gate.matcher.accept token).2 ≠ .rejected)
    {d : Detokenizer} (hpush : t.detokenizer.push token = (d, .error e)) (observe : Observer σ) (seen : σ) :
    s.nextWith observe seen = ({ t.take token d with phase := .aborted }, seen, some (.error e)) := by
  rw [nextWith_of_isRunning h.isRunning h.mayGenerate, advance_eq, h.propose_eq]
  dsimp only
  unfold offer
  rw [LogitGate.accept_of_ne_rejected hv]
  dsimp only [append]
  rw [hpush]
  rfl

/-- A step with a token that is added to the text. -/
theorem nextWith_of_push (h : s.Offers t token) (hv : (t.gate.matcher.accept token).2 ≠ .rejected)
    {d : Detokenizer} {chunk : String} (hpush : t.detokenizer.push token = (d, .ok chunk)) (observe : Observer σ)
    (seen : σ) :
    s.nextWith observe seen =
      match (t.take token d).settle token (t.gate.matcher.accept token).2 chunk
        (observe seen (t.tokens ++ [token])).2 with
      | (s, .error e) => ({ s with phase := .aborted }, (observe seen (t.tokens ++ [token])).1, some (.error e))
      | (s, .ok g) => (s, (observe seen (t.tokens ++ [token])).1, some (.ok g)) := by
  rw [nextWith_of_isRunning h.isRunning h.mayGenerate, advance_eq, h.propose_eq]
  dsimp only
  unfold offer
  rw [LogitGate.accept_of_ne_rejected hv]
  dsimp only [append]
  rw [hpush]
  rfl

/-- A step of a session does one of these things. -/
theorem nextWith_move (observe : Observer σ) (seen : σ) (s : Session κ ρ) :
    Move observe seen s (s.nextWith observe seen).1 (s.nextWith observe seen).2.1
      (s.nextWith observe seen).2.2 := by
  by_cases hs : s.IsRunning
  · by_cases hmost : s.params.maxTokens = some 0
    · rw [nextWith_full hs hmost]
      exact .full hs hmost
    · rcases hpropose : s.propose with ⟨t, e | token⟩
      · rw [nextWith_of_isRunning hs hmost, advance_eq, hpropose]
        exact .failed hs hmost hpropose
      · exact nextWith_of_offers ⟨hs, hmost, hpropose⟩ observe seen
  · rw [nextWith_of_not_isRunning hs]
    exact .ended hs

/-- A step adds no token, or the one that the gate has accepted. -/
theorem tokens_nextWith (observe : Observer σ) (seen : σ) (s : Session κ ρ) :
    (s.nextWith observe seen).1.tokens = s.tokens ∨
      ∃ t token, s.Offers t token ∧ (t.gate.matcher.accept token).2 ≠ .rejected ∧
        (s.nextWith observe seen).1.tokens = s.tokens ++ [token] := by
  have hmove := nextWith_move observe seen s
  generalize s.nextWith observe seen = next at hmove ⊢
  obtain ⟨next, seen', item⟩ := next
  have htake {t : Session κ ρ} {token : TokenId} (ho : s.Offers t token) :
      t.tokens ++ [token] = s.tokens ++ [token] := by
    rw [ho.keeps.tokens_eq]
  dsimp only at hmove ⊢
  cases hmove with
  | ended => exact Or.inl rfl
  | full => exact Or.inl rfl
  | failed _ _ hpropose => exact Or.inl (keeps_of_propose hpropose).tokens_eq
  | refused ho => exact Or.inl ho.keeps.tokens_eq
  | unreadable ho hv => exact Or.inr ⟨_, _, ho, hv, htake ho⟩
  | generated ho hv => exact Or.inr ⟨_, _, ho, hv, htake ho⟩
  | unflushed ho hv => exact Or.inr ⟨_, _, ho, hv, htake ho⟩
  | finished ho hv => exact Or.inr ⟨_, _, ho, hv, htake ho⟩

end Session
end GuidedDecoding
