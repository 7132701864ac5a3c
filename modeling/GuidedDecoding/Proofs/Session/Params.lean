import GuidedDecoding.Proofs.Session.Run

/-!
# Sessions with other parameters

A step looks at the parameters of its session in two places: the size of the pieces in which the input is read,
and the number of tokens that are allowed. Where neither makes a difference, a session with other parameters does
what the session does (`nextWith_withParams`), and so does a whole run (`run_withParams`).
-/

namespace GuidedDecoding.Session

variable {κ ρ σ : Type} {s : Session κ ρ} {p : GenerationParams}

def withParams (s : Session κ ρ) (params : GenerationParams) : Session κ ρ := { s with params }

def ReadsAlike (s : Session κ ρ) (p : GenerationParams) : Prop :=
  s.phase = .prefill →
    s.model.read (pieces (p.prefillStep - 1) s.input.lead) s.cache =
      s.model.read (pieces (s.params.prefillStep - 1) s.input.lead) s.cache

theorem readsAlike_of_phase (h : s.phase ≠ .prefill) : s.ReadsAlike p := fun hphase => absurd hphase h

/-! ### One step -/

section Step

variable {t : Session κ ρ} {token : TokenId}

theorem prefill_withParams (h : s.ReadsAlike p) :
    (s.withParams p).prefill = (s.prefill.1.withParams p, s.prefill.2) := by
  have hphase : (s.withParams p).phase = s.phase := rfl
  unfold prefill
  rw [hphase]
  cases hs : s.phase with
  | prefill =>
    have hread : (s.withParams p).model.read
        (pieces ((s.withParams p).params.prefillStep - 1) (s.withParams p).input.lead) (s.withParams p).cache =
        s.model.read (pieces (s.params.prefillStep - 1) s.input.lead) s.cache := h hs
    dsimp only
    rw [hread]
    rcases s.model.read (pieces (s.params.prefillStep - 1) s.input.lead) s.cache with ⟨cache, e | _⟩ <;> rfl
  | decode => rfl
  | finished => rfl
  | aborted => rfl

theorem scores_withParams (s : Session κ ρ) (p : GenerationParams) :
    (s.withParams p).scores = (s.scores.1.withParams p, s.scores.2) := by
  have hforward : (s.withParams p).model.forward [(s.withParams p).pending] (s.withParams p).cache =
      s.model.forward [s.pending] s.cache := rfl
  unfold scores
  rw [hforward]
  rcases s.model.forward [s.pending] s.cache with ⟨cache, e | output⟩
  · rfl
  · dsimp only
    cases output.lastScores <;> rfl

/-- Up to its token a step does the same with other parameters. -/
theorem propose_withParams (h : s.ReadsAlike p) :
    (s.withParams p).propose = (s.propose.1.withParams p, s.propose.2) := by
  unfold propose
  rw [prefill_withParams h]
  rcases s.prefill with ⟨s₁, e | _⟩
  · rfl
  · dsimp only
    rw [scores_withParams]
    rcases s₁.scores with ⟨s₂, e | scores⟩
    · rfl
    · have hsample : (s₂.withParams p).sampler.sample (s₂.withParams p).chance scores =
          s₂.sampler.sample s₂.chance scores := rfl
      dsimp only
      rw [hsample]
      rcases s₂.sampler.sample s₂.chance scores with ⟨chance, e | token⟩ <;> rfl

theorem Offers.withParams (h : s.Offers t token) (hread : s.ReadsAlike p)
    (hmost : p.maxTokens ≠ some 0) : (s.withParams p).Offers (t.withParams p) token where
  isRunning := h.isRunning
  mayGenerate := hmost
  propose_eq := by rw [propose_withParams hread, h.propose_eq]

/-- A step ends the same way if it has the same reason to end. -/
theorem settle_withParams {token : TokenId} {v : Verdict} {d : Disposition}
    (hfinish : (s.withParams p).finish? token v d = s.finish? token v d) (chunk : String) :
    (s.withParams p).settle token v chunk d =
      ((s.settle token v chunk d).1.withParams p, (s.settle token v chunk d).2) := by
  have hflush : (s.withParams p).detokenizer.flush = s.detokenizer.flush := rfl
  unfold settle
  rw [hfinish]
  cases s.finish? token v d with
  | none => rfl
  | some reason =>
    dsimp only
    rw [hflush]
    rcases s.detokenizer.flush with ⟨detokenizer, e | rest⟩ <;> rfl

theorem finish?_withParams (hmost : p.maxTokens = s.params.maxTokens) (token : TokenId) (v : Verdict)
    (d : Disposition) : (s.withParams p).finish? token v d = s.finish? token v d := by
  have hfull : (s.withParams p).isFull = s.isFull := by
    show (p.maxTokens.any fun most => most ≤ s.tokens.length) = s.isFull
    rw [hmost]
    rfl
  unfold finish?
  rw [hfull]
  rfl

/-- No step changes the parameters, and behind it the input has been read. -/
theorem params_nextWith (observe : Observer σ) (seen : σ) (s : Session κ ρ) :
    (s.nextWith observe seen).1.params = s.params ∧ (s.nextWith observe seen).1.phase ≠ .prefill := by
  have hmove := nextWith_move observe seen s
  generalize s.nextWith observe seen = next at hmove ⊢
  obtain ⟨next, seen', item⟩ := next
  dsimp only at hmove ⊢
  cases hmove with
  | ended hs => exact ⟨rfl, fun hphase => hs (Or.inl hphase)⟩
  | full => exact ⟨rfl, nofun⟩
  | failed _ _ hpropose => exact ⟨(keeps_of_propose hpropose).params_eq, nofun⟩
  | refused ho => exact ⟨ho.keeps.params_eq, nofun⟩
  | unreadable ho => exact ⟨ho.keeps.params_eq, nofun⟩
  | @generated t token d _ ho =>
    have hphase : (t.take token d).phase = .decode := (mask_propose ho.isRunning ho.propose_eq).2
    exact ⟨ho.keeps.params_eq, by rw [hphase]; nofun⟩
  | unflushed ho => exact ⟨ho.keeps.params_eq, nofun⟩
  | finished ho => exact ⟨ho.keeps.params_eq, nofun⟩

/-- Until a token is taken a step does the same if the input is read to the same effect; what it does behind
that is left to `settle`. -/
theorem nextWith_withParams_or (hread : s.ReadsAlike p) (hzero : s.params.maxTokens ≠ some 0)
    (hzero' : p.maxTokens ≠ some 0) (observe : Observer σ) (seen : σ) :
    (s.withParams p).nextWith observe seen =
        ((s.nextWith observe seen).1.withParams p, (s.nextWith observe seen).2) ∨
      ∃ t token d chunk, s.Offers t token ∧ (t.gate.matcher.accept token).2 ≠ .rejected ∧
        t.detokenizer.push token = (d, .ok chunk) := by
  by_cases hs : s.IsRunning
  · rcases hpropose : s.propose with ⟨t, e | token⟩
    · have hpropose' : (s.withParams p).propose = (t.withParams p, .error e) := by
        rw [propose_withParams hread, hpropose]
      left
      rw [nextWith_of_failed hs hzero hpropose, nextWith_of_failed (s := s.withParams p) hs hzero' hpropose']
      rfl
    · have ho : s.Offers t token := ⟨hs, hzero, hpropose⟩
      have ho' := ho.withParams hread hzero'
      by_cases hv : (t.gate.matcher.accept token).2 = .rejected
      · left
        rw [nextWith_of_rejected ho hv, nextWith_of_rejected ho' hv]
        rfl
      · rcases hpush : t.detokenizer.push token with ⟨d, e | chunk⟩
        · left
          rw [nextWith_of_unreadable ho hv hpush, nextWith_of_unreadable ho' hv hpush]
          rfl
        · exact Or.inr ⟨t, token, d, chunk, ho, hv, hpush⟩
  · left
    rw [nextWith_of_not_isRunning hs, nextWith_of_not_isRunning (s := s.withParams p) hs]

/-- With a token that has the same reason to end, the whole step is the same. -/
theorem Offers.nextWith_withParams {t : Session κ ρ} (ho : s.Offers t token) (hread : s.ReadsAlike p)
    (hzero' : p.maxTokens ≠ some 0) (hv : (t.gate.matcher.accept token).2 ≠ .rejected) {d : Detokenizer}
    {chunk : String} (hpush : t.detokenizer.push token = (d, .ok chunk)) {observe : Observer σ} {seen : σ}
    (hfinish : ((t.take token d).withParams p).finish? token (t.gate.matcher.accept token).2
        (observe seen (t.tokens ++ [token])).2 =
      (t.take token d).finish? token (t.gate.matcher.accept token).2 (observe seen (t.tokens ++ [token])).2) :
    (s.withParams p).nextWith observe seen =
      ((s.nextWith observe seen).1.withParams p, (s.nextWith observe seen).2) := by
  have hsettle : ((t.withParams p).take token d).settle token (t.gate.matcher.accept token).2 chunk
      (observe seen (t.tokens ++ [token])).2 = _ := settle_withParams hfinish chunk
  have htokens : (t.withParams p).tokens = t.tokens := rfl
  have hgate : (t.withParams p).gate = t.gate := rfl
  rw [nextWith_of_push ho hv hpush, nextWith_of_push (ho.withParams hread hzero') hv hpush, htokens, hgate, hsettle]
  rcases (t.take token d).settle token (t.gate.matcher.accept token).2 chunk
    (observe seen (t.tokens ++ [token])).2 with ⟨u, e | g⟩ <;> rfl

/-- A step does the same if the input is read to the same effect and as many tokens are allowed. -/
theorem nextWith_withParams (hread : s.ReadsAlike p) (hmost : p.maxTokens = s.params.maxTokens)
    (observe : Observer σ) (seen : σ) :
    (s.withParams p).nextWith observe seen =
      ((s.nextWith observe seen).1.withParams p, (s.nextWith observe seen).2) := by
  by_cases hs : s.IsRunning
  · by_cases hzero : s.params.maxTokens = some 0
    · rw [nextWith_full hs hzero, nextWith_full (s := s.withParams p) hs (hmost.trans hzero)]
      rfl
    · have hzero' : p.maxTokens ≠ some 0 := fun h => hzero (hmost.symm.trans h)
      rcases nextWith_withParams_or hread hzero hzero' observe seen with
        hsame | ⟨t, token, d, chunk, ho, hv, hpush⟩
      · exact hsame
      · refine ho.nextWith_withParams hread hzero' hv hpush (finish?_withParams ?_ token _ _)
        exact hmost.trans (congrArg (·.maxTokens) ho.keeps.params_eq.symm)
  · rw [nextWith_of_not_isRunning hs, nextWith_of_not_isRunning (s := s.withParams p) hs]

end Step

/-! ### Runs -/

/-- A run does the same if the input is read to the same effect and as many tokens are allowed. -/
theorem run_withParams (hread : s.ReadsAlike p) (hmost : p.maxTokens = s.params.maxTokens) (observe : Observer σ)
    (limit : Nat) (seen : σ) :
    (s.withParams p).run observe limit seen =
      { s.run observe limit seen with session := (s.run observe limit seen).session.withParams p } := by
  induction limit generalizing s seen with
  | zero => rfl
  | succ limit ih =>
    obtain ⟨hparams, hphase⟩ := params_nextWith observe seen s
    rw [run, run, nextWith_withParams hread hmost]
    generalize s.nextWith observe seen = next at hparams hphase ⊢
    obtain ⟨t, seen', _ | item⟩ := next
    · rfl
    · dsimp only at hparams hphase ⊢
      rw [ih (readsAlike_of_phase hphase) (hmost.trans (congrArg (·.maxTokens) hparams.symm))]

/-- Collecting has the same result if the input is read to the same effect and as many tokens are allowed. -/
theorem collect?_withParams (hread : s.ReadsAlike p) (hmost : p.maxTokens = s.params.maxTokens)
    (observe : Observer σ) (limit : Nat) (seen : σ) :
    ((s.withParams p).collect? observe limit seen).result = (s.collect? observe limit seen).result := by
  unfold collect?
  rw [run_withParams hread hmost]
  rfl

end GuidedDecoding.Session
