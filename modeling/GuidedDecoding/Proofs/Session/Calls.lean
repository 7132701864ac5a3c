import GuidedDecoding.Proofs.Session.Run

/-!
# The calls of a model

A session with a recorded model keeps, beside the cache, what the model has been called with. Otherwise it does
what the session does (`run_recorded`), so what is recorded along a run is what the run asks of its model. It
asks nothing exactly if the session has ended, or if no token may be generated (`calls_eq_nil_iff`).
-/

namespace GuidedDecoding

/-- The tokens that a model was called with, call by call. -/
abbrev CallLog := List (List TokenId)

def LanguageModel.recorded {κ : Type} (m : LanguageModel κ) : LanguageModel (κ × CallLog) where
  emptyCache := (m.emptyCache, [])
  forward ids cache :=
    let (after, output) := m.forward ids cache.1
    ((after, cache.2 ++ [ids]), output)

namespace LanguageModel

variable {κ : Type}

/-- What a model is called with where it is to read `due`: a beginning of it, which is not empty if that fails. If it
does not fail the model has read all of it, and the cache is the one behind that. -/
structure Reads (m : LanguageModel κ) (due calls : CallLog) (cache after : κ) (succeeds : Prop) : Prop where
  begins : calls <+: due
  ne_nil : ¬ succeeds → calls ≠ []
  all : succeeds → calls = due ∧ m.read due cache = (after, .ok ())

/-- Lists are read in two parts, unless the first one fails. -/
theorem read_append (m : LanguageModel κ) (front back : CallLog) (cache : κ) :
    m.read (front ++ back) cache =
      match m.read front cache with
      | (cache, .ok ()) => m.read back cache
      | (cache, .error e) => (cache, .error e) := by
  induction front generalizing cache with
  | nil => rfl
  | cons ids front ih =>
    rw [List.cons_append, read, read]
    rcases m.forward ids cache with ⟨after, e | output⟩
    · rfl
    · exact ih after

/-- Reading calls the model once for each list, up to the one that fails. -/
theorem read_recorded (m : LanguageModel κ) (pieces : CallLog) (cache : κ) (log : CallLog) :
    ∃ calls, m.recorded.read pieces (cache, log) =
        (((m.read pieces cache).1, log ++ calls), (m.read pieces cache).2) ∧
      m.Reads pieces calls cache (m.read pieces cache).1 ((m.read pieces cache).2 = .ok ()) := by
  induction pieces generalizing cache log with
  | nil => exact ⟨[], by simp [read], List.nil_prefix, fun h => absurd rfl h, fun _ => ⟨rfl, rfl⟩⟩
  | cons ids pieces ih =>
    rcases hforward : m.forward ids cache with ⟨after, e | output⟩
    · have hread : m.read (ids :: pieces) cache = (after, .error e) := by rw [read, hforward]
      rw [hread]
      exact ⟨[ids], by simp [read, recorded, hforward], by simp, by simp, nofun⟩
    · have hread : m.read (ids :: pieces) cache = m.read pieces after := by rw [read, hforward]
      obtain ⟨calls, hrecorded, hreads⟩ := ih after (log ++ [ids])
      rw [hread]
      refine ⟨ids :: calls, by simpa [read, recorded, hforward] using hrecorded,
        (List.prefix_cons_inj ids).mpr hreads.begins, fun _ => List.cons_ne_nil _ _, fun h => ?_⟩
      exact ⟨by rw [(hreads.all h).1], hread.trans (hreads.all h).2⟩

end LanguageModel

namespace Session

variable {κ ρ σ : Type} {s : Session κ ρ}

def recorded (s : Session κ ρ) (log : CallLog) : Session (κ × CallLog) ρ :=
  { s with model := s.model.recorded, cache := (s.cache, log) }

/-- What the model has not read of the input, but for its last token, in the pieces in which it reads it. -/
def unread (s : Session κ ρ) : CallLog :=
  match s.phase with
  | .prefill => pieces (s.params.prefillStep - 1) s.input.lead
  | _ => []

/-- What the model is to read in the next step. -/
def due (s : Session κ ρ) : CallLog := s.unread ++ [[s.pending]]

/-! ### One step -/

/-- The recorded session is called with what is left of the input. -/
theorem prefill_recorded (s : Session κ ρ) (log : CallLog) :
    ∃ calls, (s.recorded log).prefill = (s.prefill.1.recorded (log ++ calls), s.prefill.2) ∧
      s.model.Reads s.unread calls s.cache s.prefill.1.cache (s.prefill.2 = .ok ()) := by
  have hphase : (s.recorded log).phase = s.phase := rfl
  have hidle : (s.recorded (log ++ [])) = s.recorded log ∧ s.model.Reads [] [] s.cache s.cache True :=
    ⟨by rw [List.append_nil], List.nil_prefix, fun h => absurd trivial h, fun _ => ⟨rfl, rfl⟩⟩
  unfold prefill unread
  rw [hphase]
  -- only before the first token something is left to read
  cases s.phase with
  | prefill =>
    obtain ⟨calls, hread, hreads⟩ :=
      s.model.read_recorded (pieces (s.params.prefillStep - 1) s.input.lead) s.cache log
    have hrecorded : (s.recorded log).model.read
        (pieces ((s.recorded log).params.prefillStep - 1) (s.recorded log).input.lead)
        (s.recorded log).cache = _ := hread
    refine ⟨calls, ?_⟩
    dsimp only
    rw [hrecorded]
    rcases hanswer : s.model.read (pieces (s.params.prefillStep - 1) s.input.lead) s.cache with ⟨cache, e | _⟩
    · rw [hanswer] at hreads
      exact ⟨rfl, hreads⟩
    · rw [hanswer] at hreads
      exact ⟨rfl, hreads⟩
  | decode => exact ⟨[], by rw [hidle.1], by simpa using hidle.2⟩
  | finished => exact ⟨[], by rw [hidle.1], by simpa using hidle.2⟩
  | aborted => exact ⟨[], by rw [hidle.1], by simpa using hidle.2⟩

/-- Scoring calls the model with the token that comes next. -/
theorem scores_recorded (s : Session κ ρ) (log : CallLog) :
    (s.recorded log).scores = (s.scores.1.recorded (log ++ [[s.pending]]), s.scores.2) := by
  have hforward : (s.recorded log).model.forward [(s.recorded log).pending] (s.recorded log).cache =
      (((s.model.forward [s.pending] s.cache).1, log ++ [[s.pending]]),
        (s.model.forward [s.pending] s.cache).2) := rfl
  unfold scores
  rw [hforward]
  rcases s.model.forward [s.pending] s.cache with ⟨cache, e | output⟩
  · rfl
  · dsimp only
    cases output.lastScores <;> rfl

/-- Where there are scores the model has read the token that comes next. -/
theorem read_of_scores {t : Session κ ρ} {scores : List Float32} (h : s.scores = (t, .ok scores)) :
    s.model.read [[s.pending]] s.cache = (t.cache, .ok ()) := by
  unfold Session.scores at h
  rcases hforward : s.model.forward [s.pending] s.cache with ⟨cache, e | output⟩
  · rw [hforward] at h
    cases h
  · rw [hforward] at h
    rw [LanguageModel.read, hforward]
    dsimp only at h ⊢
    cases hrow : output.lastScores with
    | error e =>
      rw [hrow] at h
      cases h
    | ok row =>
      rw [hrow] at h
      dsimp only at h
      rw [Prod.mk.injEq] at h
      rw [← h.1]
      rfl

/-- Before it has a token, a step of a session has its model read what is due, and calls it at least once. -/
theorem propose_recorded (s : Session κ ρ) (log : CallLog) :
    ∃ calls, calls ≠ [] ∧
      (s.recorded log).propose = (s.propose.1.recorded (log ++ calls), s.propose.2) ∧
      s.model.Reads s.due calls s.cache s.propose.1.cache (∃ token, s.propose.2 = .ok token) := by
  obtain ⟨read, hprefill, hreads⟩ := s.prefill_recorded log
  have hkeeps := keeps_prefill s
  unfold propose due
  rw [hprefill]
  -- The reading of the input may fail, then that of the last token, and then the sampler. Only the model's
  -- calls are recorded, so the log is all of `due` from the second failure on.
  rcases hanswer : s.prefill with ⟨s₁, e | _⟩
  · rw [hanswer] at hreads
    have hne : read ≠ [] := hreads.ne_nil nofun
    exact ⟨read, hne, rfl, hreads.begins.trans (List.prefix_append _ _), fun _ => hne, nofun⟩
  · rw [hanswer] at hkeeps hreads
    obtain ⟨rfl, hread⟩ := hreads.all rfl
    have hpending : s₁.pending = s.pending := by
      unfold pending
      rw [hkeeps.tokens_eq, hkeeps.input_eq]
    have hne : s.unread ++ [[s₁.pending]] ≠ [] := by simp
    refine ⟨s.unread ++ [[s₁.pending]], hne, ?_⟩
    rw [hpending] at hne ⊢
    dsimp only
    rw [scores_recorded, List.append_assoc, hpending]
    rcases hscores : s₁.scores with ⟨s₂, e | scores⟩
    · exact ⟨rfl, List.prefix_rfl, fun _ => hne, nofun⟩
    · have hsample : (s₂.recorded (log ++ (s.unread ++ [[s.pending]]))).sampler.sample
          (s₂.recorded (log ++ (s.unread ++ [[s.pending]]))).chance scores =
          s₂.sampler.sample s₂.chance scores := rfl
      have hall : s.model.read (s.unread ++ [[s.pending]]) s.cache = (s₂.cache, .ok ()) := by
        rw [LanguageModel.read_append, hread, ← hpending, ← hkeeps.model_eq]
        exact read_of_scores hscores
      dsimp only
      rw [hsample]
      rcases s₂.sampler.sample s₂.chance scores with ⟨chance, e | token⟩
      · exact ⟨rfl, List.prefix_rfl, fun _ => hne, nofun⟩
      · exact ⟨rfl, List.prefix_rfl, fun _ => hne, fun _ => ⟨rfl, hall⟩⟩

/-- Offering a token calls no model. -/
theorem offer_recorded (s : Session κ ρ) (log : CallLog) (token : TokenId) :
    (s.recorded log).offer token = ((s.offer token).1.recorded log, (s.offer token).2) := by
  have hgate : (s.recorded log).gate = s.gate := rfl
  unfold offer
  rw [hgate]
  rcases s.gate.accept token with ⟨gate, e | verdict⟩
  · rfl
  · have happend : ({ s.recorded log with gate } : Session (κ × CallLog) ρ).append token =
        ((({ s with gate } : Session κ ρ).append token).1.recorded log,
          (({ s with gate } : Session κ ρ).append token).2) := rfl
    dsimp only
    rw [happend]
    rcases ({ s with gate } : Session κ ρ).append token with ⟨s', e | chunk⟩ <;> rfl

theorem settle_recorded (s : Session κ ρ) (log : CallLog) (token : TokenId) (v : Verdict) (chunk : String)
    (d : Disposition) :
    (s.recorded log).settle token v chunk d =
      ((s.settle token v chunk d).1.recorded log, (s.settle token v chunk d).2) := by
  have hfinish : (s.recorded log).finish? token v d = s.finish? token v d := rfl
  have hflush : (s.recorded log).detokenizer.flush = s.detokenizer.flush := rfl
  unfold settle
  rw [hfinish]
  cases s.finish? token v d with
  | none => rfl
  | some reason =>
    dsimp only
    rw [hflush]
    rcases s.detokenizer.flush with ⟨detokenizer, e | rest⟩ <;> rfl

/-- A step calls the model unless the session has ended or may not generate anything. -/
theorem nextWith_recorded (s : Session κ ρ) (log : CallLog) (observe : Observer σ) (seen : σ) :
    ∃ calls, (s.recorded log).nextWith observe seen =
        ((s.nextWith observe seen).1.recorded (log ++ calls), (s.nextWith observe seen).2) ∧
      (calls = [] ↔ ¬ s.IsRunning ∨ s.params.maxTokens = some 0) ∧
      (s.IsRunning → s.params.maxTokens ≠ some 0 →
        s.model.Reads s.due calls s.cache s.propose.1.cache (∃ token, s.propose.2 = .ok token)) := by
  -- an ended session makes no call, and neither does one that may generate nothing
  by_cases hs : s.IsRunning
  · by_cases hmost : s.params.maxTokens = some 0
    · refine ⟨[], ?_, by simp [hmost], fun _ hne => absurd hmost hne⟩
      rw [List.append_nil, nextWith_full hs hmost, nextWith_full (s := s.recorded log) hs hmost]
      rfl
    · obtain ⟨calls, hne, hpropose, hreads⟩ := s.propose_recorded log
      refine ⟨calls, ?_, by simp [hs, hmost, hne], fun _ _ => hreads⟩
      rw [nextWith_of_isRunning hs hmost, nextWith_of_isRunning (s := s.recorded log) hs hmost,
        advance_eq, advance_eq, hpropose]
      rcases s.propose with ⟨t, e | token⟩
      · rfl
      · dsimp only
        rw [offer_recorded]
        rcases t.offer token with ⟨t', e | ⟨token', verdict, chunk⟩⟩
        · rfl
        · have htokens : (t'.recorded (log ++ calls)).tokens = t'.tokens := rfl
          dsimp only
          rw [htokens]
          rcases observe seen t'.tokens with ⟨seen', disposition⟩
          dsimp only
          rw [settle_recorded]
          rcases t'.settle token' verdict chunk disposition with ⟨t'', e | g⟩ <;> rfl
  · refine ⟨[], ?_, by simp [hs], fun hrunning => absurd hrunning hs⟩
    rw [List.append_nil, nextWith_of_not_isRunning hs,
      nextWith_of_not_isRunning (s := s.recorded log) hs]

/-! ### Runs -/

theorem run_recorded (s : Session κ ρ) (log : CallLog) (observe : Observer σ) (limit : Nat) (seen : σ) :
    ∃ calls, (s.recorded log).run observe limit seen =
        ⟨(s.run observe limit seen).session.recorded (log ++ calls), (s.run observe limit seen).seen,
          (s.run observe limit seen).items, (s.run observe limit seen).isOver⟩ ∧
      (calls = [] ↔ limit = 0 ∨ ¬ s.IsRunning ∨ s.params.maxTokens = some 0) := by
  induction limit generalizing s log seen with
  | zero => exact ⟨[], by simp [run], by simp⟩
  | succ limit ih =>
    obtain ⟨first, hnext, hfirst, -⟩ := s.nextWith_recorded log observe seen
    have hmove := nextWith_move observe seen s
    rw [run, run, hnext]
    generalize s.nextWith observe seen = next at hmove ⊢
    obtain ⟨t, seen', _ | item⟩ := next
    · exact ⟨first, rfl, by simp [hfirst]⟩
    · obtain ⟨rest, hrun, -⟩ := ih t (log ++ first) seen'
      dsimp only at hmove ⊢
      rw [hrun, List.append_assoc]
      -- With an item the session has taken a step.
      have hstep : ¬ (¬ s.IsRunning ∨ s.params.maxTokens = some 0) := hmove.hasStepped
      have hne : first ≠ [] := fun h => hstep (hfirst.mp h)
      exact ⟨first ++ rest, rfl, by simp [hne, hstep]⟩

def calls (s : Session κ ρ) (observe : Observer σ) (limit : Nat) (seen : σ) : CallLog :=
  ((s.recorded []).run observe limit seen).session.cache.2

/-- A recorded session keeps the calls of the run beside what the run leaves. -/
theorem run_recorded_calls (s : Session κ ρ) (observe : Observer σ) (limit : Nat) (seen : σ) :
    (s.recorded []).run observe limit seen =
      ⟨(s.run observe limit seen).session.recorded (s.calls observe limit seen), (s.run observe limit seen).seen,
        (s.run observe limit seen).items, (s.run observe limit seen).isOver⟩ := by
  obtain ⟨calls, hrun, -⟩ := s.run_recorded [] observe limit seen
  unfold Session.calls
  rw [hrun]
  rfl

/-- A run calls the model unless the session has ended or may not generate anything. -/
theorem calls_eq_nil_iff (s : Session κ ρ) (observe : Observer σ) (limit : Nat) (seen : σ) :
    s.calls observe limit seen = [] ↔ limit = 0 ∨ ¬ s.IsRunning ∨ s.params.maxTokens = some 0 := by
  obtain ⟨calls, hrun, hcalls⟩ := s.run_recorded [] observe limit seen
  have heq : s.calls observe limit seen = calls := by
    unfold Session.calls
    rw [hrun]
    rfl
  rw [heq, hcalls]

/-- The next step of a run adds its calls: none unless the session is running and may generate tokens, and then what
is due. -/
theorem exists_calls_succ (s : Session κ ρ) (observe : Observer σ) (limit : Nat) (seen : σ) {r : Run κ ρ σ}
    (hr : s.run observe limit seen = r) :
    ∃ calls, s.calls observe (limit + 1) seen = s.calls observe limit seen ++ calls ∧
      (calls = [] ↔ ¬ r.session.IsRunning ∨ r.session.params.maxTokens = some 0) ∧
      (r.session.IsRunning → r.session.params.maxTokens ≠ some 0 →
        r.session.model.Reads r.session.due calls r.session.cache r.session.propose.1.cache
          (∃ token, r.session.propose.2 = .ok token)) := by
  obtain ⟨calls, hnext, hcalls⟩ :=
    r.session.nextWith_recorded (s.calls observe limit seen) observe r.seen
  refine ⟨calls, ?_, hcalls⟩
  show ((s.recorded []).run observe (limit + 1) seen).session.cache.2 = _
  rw [run_succ, run_recorded_calls, hr, Run.further, hnext]
  rcases r.session.nextWith observe r.seen with ⟨t, seen', _ | item⟩ <;> rfl

end Session
end GuidedDecoding
