import GuidedDecoding.Proofs.Matcher.Cuts
import GuidedDecoding.Proofs.Session.Params
import GuidedDecoding.Proofs.Session.Pattern
import GuidedDecoding.Proofs.TextDecoder

/-!
# Sessions that may generate more

Without a grammar and an observer that stops it, a session that has generated as many tokens as it was allowed
would have gone on if it were allowed more. Up to there the longer session does the same; it has not given out the
end of its text, but it has the same tokens and the same cache (`Open.outgrows`).
-/

namespace GuidedDecoding

/-! ### Matchers without a constraint -/

namespace Matcher

variable {l : Lexicon} {m : Matcher} {id : TokenId}

def free (l : Lexicon) : Matcher :=
  { lexicon := l, constraint := .free, recognizer := { lexicon := l, progress := .free } }

/-- A matcher without a grammar starts in one way. -/
theorem eq_free_of_start (h : Matcher.start l .free = .ok m) : m = free l := by
  obtain ⟨-, r, hr, rfl⟩ := start_eq_ok h
  cases hr
  rfl

/-- Without a constraint a token that does not end the text changes nothing. -/
theorem Alike.accept_free (h : m.Alike (free l)) (hid : m.lexicon.isStop id = false)
    (hv : (m.accept id).2 ≠ .rejected) : (m.accept id).2 = .continues ∧ (m.accept id).1.Alike (free l) := by
  have houtcome := accept_outcome m id
  generalize (m.accept id).1 = next, (m.accept id).2 = v at houtcome hv ⊢
  cases houtcome with
  | rejected => exact absurd rfl hv
  | accepted _ _ ho _ =>
    rw [h.recognizer_eq] at ho
    rw [h.lexicon_eq] at hid
    cases ho with
    | rejected => exact absurd rfl hv
    | stop _ hstop => exact absurd (hid.symm.trans hstop) nofun
    | free => exact ⟨rfl, h.lexicon_eq, rfl, rfl⟩
    | grows _ _ hwalk => cases hwalk
    | spent _ _ hwalk => cases hwalk

end Matcher

/-- What an item tells apart from the text: the token and the reason to end, or the failure. -/
def outcome (item : Item) : Except Failure (TokenId × Option StopReason) :=
  item.map fun g => (g.token, g.finish)

namespace Session

variable {κ ρ : Type} {s t : Session κ ρ} {l : Lexicon} {k : Nat} {token : TokenId} {v : Verdict}
  {p : GenerationParams}

/-! ### The end of a step -/

/-- Without a constraint and an observer that stops it, a session goes on until a stop token or as many tokens as
allowed. -/
theorem finish?_eq_none (hstop : s.gate.matcher.lexicon.isStop token = false) (hfull : s.isFull = false) :
    s.finish? token .continues .proceed = none := by
  simp [finish?, hstop, hfull]

/-- A session that goes on is not full. -/
theorem not_isFull_of_finish?_eq_none {d : Disposition} (h : s.finish? token v d = none) : s.isFull = false := by
  unfold finish? at h
  split at h
  · cases h
  · split at h
    · cases h
    · next hfull => exact Bool.eq_false_iff.mpr hfull

/-- Where the number of tokens is the reason to end, it is reached, and the token is no stop token. -/
theorem of_finish?_eq_length {d : Disposition} (h : s.finish? token v d = some .length) :
    s.gate.matcher.lexicon.isStop token = false ∧ s.isFull = true := by
  unfold finish? at h
  split at h
  · cases h
  · next hstop =>
    split at h
    · next hfull => exact ⟨Bool.eq_false_iff.mpr hstop, hfull⟩
    · repeat' split at h
      all_goals cases h

theorem isFull_eq (hmost : s.params.maxTokens = some k) : s.isFull = decide (k ≤ s.tokens.length) := by
  rw [isFull, hmost]
  rfl

/-- A session that goes on gives out the chunk as it is. -/
theorem settle_of_none {chunk : String} {d : Disposition} (h : s.finish? token v d = none) :
    s.settle token v chunk d = (s, .ok ⟨token, chunk, none⟩) := by
  unfold settle
  rw [h]

/-- One that ends adds what was held back to it. -/
theorem settle_of_some {chunk rest : String} {d : Disposition} {reason : StopReason} {d' : Detokenizer}
    (h : s.finish? token v d = some reason) (hflush : s.detokenizer.flush = (d', .ok rest)) :
    s.settle token v chunk d =
      ({ s with detokenizer := d', phase := .finished reason }, .ok ⟨token, chunk ++ rest, some reason⟩) := by
  unfold settle
  rw [h]
  dsimp only
  rw [hflush]

/-! ### Steps before the last -/

/-- The session may generate up to `k` tokens and has generated fewer, without a constraint. -/
structure Open (l : Lexicon) (k : Nat) (s : Session κ ρ) : Prop where
  isRunning : s.IsRunning
  maxTokens_eq : s.params.maxTokens = some k
  length_lt : s.tokens.length < k
  alike : s.gate.matcher.Alike (.free l)
  tokenwise : s.detokenizer.decoder.FailsTokenwise
  readable : s.detokenizer.Readable

/-- An open session may take a step. -/
theorem Open.mayGenerate (h : s.Open l k) : s.params.maxTokens ≠ some 0 := by
  rw [h.maxTokens_eq]
  intro hzero
  have hlt := h.length_lt
  rw [Option.some.inj hzero] at hlt
  exact Nat.not_lt_zero _ hlt

theorem Offers.decoder_eq_of_push (ho : s.Offers t token) {d : Detokenizer} {answer : Except Failure String}
    (hpush : t.detokenizer.push token = (d, answer)) : d.decoder = s.detokenizer.decoder := by
  rw [← ho.keeps.detokenizer_eq]
  exact Session.decoder_eq_of_push hpush

/-- Behind a token that is no stop token the session is free as before, and its text can be told. -/
theorem Open.take (h : s.Open l k) (ho : s.Offers t token) (hv : (t.gate.matcher.accept token).2 ≠ .rejected)
    {d : Detokenizer} {chunk : String} (hpush : t.detokenizer.push token = (d, .ok chunk))
    (hstop : (t.take token d).gate.matcher.lexicon.isStop token = false) :
    (t.gate.matcher.accept token).2 = .continues ∧ (t.take token d).gate.matcher.Alike (.free l) ∧
      (t.take token d).detokenizer.decoder.FailsTokenwise ∧ (t.take token d).detokenizer.Readable := by
  have halike := h.alike
  have htokenwise := h.tokenwise
  have hreadable := h.readable
  rw [← ho.keeps.matcher_eq] at halike
  rw [← ho.keeps.detokenizer_eq] at htokenwise hreadable
  have hstop' : t.gate.matcher.lexicon.isStop token = false := by
    rw [← Matcher.lexicon_accept _ token]
    exact hstop
  obtain ⟨hcontinues, halike'⟩ := halike.accept_free hstop' hv
  have hdecoder : d.decoder = t.detokenizer.decoder := decoder_eq_of_push hpush
  refine ⟨hcontinues, halike', by rw [← hdecoder] at htokenwise; exact htokenwise, ?_⟩
  -- The push succeeded, so the token has a text by itself: otherwise the decoder would have failed with it.
  cases hid : t.detokenizer.decoder.decode [token] with
  | error e =>
    obtain ⟨d', hfail⟩ := Detokenizer.push_of_error hreadable htokenwise hid
    rw [hpush] at hfail
    cases hfail
  | ok text =>
    obtain ⟨d', chunk', hok, hd'⟩ := Detokenizer.push_of_ok hreadable htokenwise hid
    rw [hpush] at hok
    cases hok
    exact hd'

/-- A step that does not end the session with fewer tokens than `most` is one of the longer session too. -/
theorem Open.nextWith_withParams (h : s.Open l k) (ho : s.Offers t token)
    (hv : (t.gate.matcher.accept token).2 ≠ .rejected) {d : Detokenizer} {chunk : String}
    (hpush : t.detokenizer.push token = (d, .ok chunk))
    (hstop : (t.take token d).gate.matcher.lexicon.isStop token = false)
    (hstep : p.prefillStep = s.params.prefillStep) {most : Nat} (hmost : p.maxTokens = some most) (hlt : k < most) :
    (s.withParams p).nextWith .silent () =
      ((t.take token d).withParams p, (), some (.ok ⟨token, chunk, none⟩)) := by
  have hread : s.ReadsAlike p := fun _ => by rw [hstep]
  have hzero : p.maxTokens ≠ some 0 := by
    rw [hmost]
    exact fun hzero => Nat.not_lt_zero k (Option.some.inj hzero ▸ hlt)
  have hfull : ((t.withParams p).take token d).isFull = false := by
    rw [isFull_eq hmost]
    have htokens : ((t.withParams p).take token d).tokens = s.tokens ++ [token] :=
      congrArg (· ++ [token]) ho.keeps.tokens_eq
    have hlength := h.length_lt
    rw [htokens, List.length_append, List.length_singleton]
    exact decide_eq_false (by omega)
  have hfinish : ((t.withParams p).take token d).finish? token .continues .proceed = none :=
    finish?_eq_none hstop hfull
  have hcontinues := (h.take ho hv hpush hstop).1
  have hnext := nextWith_of_push (ho.withParams hread hzero) hv hpush .silent ()
  rw [show (t.withParams p).gate = t.gate from rfl, hcontinues] at hnext
  have hproceed : (Observer.silent () ((t.withParams p).tokens ++ [token])).2 = .proceed := rfl
  rw [hnext, hproceed, settle_of_none hfinish]
  rfl

/-! ### Runs -/

/-- The session `r` has come from `s` by `ids`, and a longer session with the parameters `p` stands there too. It
differs in that it goes on, and has not given out the end of its text. -/
structure Outgrows (l : Lexicon) (p : GenerationParams) (s r : Session κ ρ) (ids : List TokenId)
    (d : Detokenizer) : Prop where
  model_eq : r.model = s.model
  sampler_eq : r.sampler = s.sampler
  tokens_eq : r.tokens = s.tokens ++ ids
  alike : r.gate.matcher.Alike (.free l)
  decoder_eq : d.decoder = s.detokenizer.decoder
  readable : d.Readable
  run_eq : (s.run .silent ids.length ()).session = r
  longer : ∃ items, items.map outcome = ids.map (fun id => .ok (id, none)) ∧
    (s.withParams p).run .silent ids.length () =
      ⟨{ r with params := p, phase := .decode, detokenizer := d }, (), items, false⟩

namespace Outgrows

variable {r : Session κ ρ} {ids : List TokenId} {d d' : Detokenizer} {chunk : String}

/-- A step in front that both sessions take. -/
theorem cons (h : Outgrows l p (t.take token d) r ids d') (ho : s.Offers t token)
    (hdecoder : d.decoder = s.detokenizer.decoder)
    (hnext : s.nextWith .silent () = (t.take token d, (), some (.ok ⟨token, chunk, none⟩)))
    (hlonger : (s.withParams p).nextWith .silent () =
      ((t.take token d).withParams p, (), some (.ok ⟨token, chunk, none⟩))) :
    Outgrows l p s r (token :: ids) d' where
  model_eq := h.model_eq.trans ho.keeps.model_eq
  sampler_eq := h.sampler_eq.trans ho.keeps.sampler_eq
  tokens_eq := by
    rw [h.tokens_eq, ← ho.keeps.tokens_eq, List.append_cons]
    rfl
  alike := h.alike
  decoder_eq := h.decoder_eq.trans hdecoder
  readable := h.readable
  run_eq := by
    rw [List.length_cons, run, hnext]
    exact h.run_eq
  longer := by
    obtain ⟨items, hitems, hrun⟩ := h.longer
    refine ⟨.ok ⟨token, chunk, none⟩ :: items, by rw [List.map_cons, hitems]; rfl, ?_⟩
    rw [List.length_cons, run, hlonger]
    dsimp only
    rw [hrun]

/-- The last step of the session, which is not the last one of the longer session. -/
theorem last {item : Item} {reason : StopReason} (ho : s.Offers t token)
    (hdecoder : d.decoder = s.detokenizer.decoder)
    (hnext : s.nextWith .silent () = ({ t.take token d' with phase := .finished reason }, (), some item))
    (hlonger : (s.withParams p).nextWith .silent () =
      ((t.take token d).withParams p, (), some (.ok ⟨token, chunk, none⟩)))
    (halike : (t.take token d).gate.matcher.Alike (.free l)) (hreadable : d.Readable) :
    Outgrows l p s { t.take token d' with phase := .finished reason } [token] d where
  model_eq := ho.keeps.model_eq
  sampler_eq := ho.keeps.sampler_eq
  tokens_eq := congrArg (· ++ [token]) ho.keeps.tokens_eq
  alike := halike
  decoder_eq := hdecoder
  readable := hreadable
  run_eq := by
    rw [List.length_singleton, run, hnext]
    rfl
  longer := by
    have hphase : t.phase = .decode := (mask_propose ho.isRunning ho.propose_eq).2
    refine ⟨[.ok ⟨token, chunk, none⟩], rfl, ?_⟩
    rw [List.length_singleton, run, hlonger, ← hphase]
    rfl

end Outgrows

/-- A step that leaves the session fewer tokens than allowed leaves it open. -/
theorem Open.next (h : s.Open l k) (ho : s.Offers t token) (hv : (t.gate.matcher.accept token).2 ≠ .rejected)
    {d : Detokenizer} {chunk : String} (hpush : t.detokenizer.push token = (d, .ok chunk)) {disposition : Disposition}
    (hfinish : (t.take token d).finish? token (t.gate.matcher.accept token).2 disposition = none) :
    (t.take token d).Open l k := by
  have hparams : (t.take token d).params.maxTokens = some k := by
    rw [← h.maxTokens_eq]
    exact congrArg (·.maxTokens) ho.keeps.params_eq
  have hfull := not_isFull_of_finish?_eq_none hfinish
  rw [isFull_eq hparams] at hfull
  obtain ⟨-, halike, htokenwise, hreadable⟩ := h.take ho hv hpush (not_isStop_of_finish?_eq_none hfinish)
  exact
    { isRunning := Or.inr (mask_propose ho.isRunning ho.propose_eq).2
      maxTokens_eq := hparams
      length_lt := Nat.lt_of_not_le (of_decide_eq_false hfull)
      alike := halike
      tokenwise := htokenwise
      readable := hreadable }

/-- A session that has ended with as many tokens as allowed would have gone on from there if it were allowed
more. -/
theorem Open.outgrows {r : Session κ ρ} {limit most : Nat} (h : s.Open l k)
    (hr : (s.run .silent limit ()).session = r) (hend : r.phase = .finished .length)
    (hstep : p.prefillStep = s.params.prefillStep) (hmost : p.maxTokens = some most) (hlt : k < most) :
    ∃ ids d, Outgrows l p s r ids d ∧ r.tokens.length = k := by
  induction limit generalizing s with
  | zero => exact absurd h.isRunning (not_isRunning_of_finished (hr ▸ hend))
  | succ limit ih =>
    -- A session that has failed stays so.
    have haborted {u : Session κ ρ} (hu : u.phase = .aborted) : (u.run .silent limit ()).session ≠ r := by
      rw [(run_of_not_isRunning (not_isRunning_of_aborted hu) limit).1]
      rintro rfl
      exact absurd (hu.symm.trans hend) nofun
    have hmove := nextWith_move .silent () s
    rcases hnext : s.nextWith .silent () with ⟨s', ⟨⟩, item⟩
    rw [run, hnext] at hr
    rw [hnext] at hmove
    dsimp only at hr hmove
    cases hmove with
    | ended hs => exact absurd h.isRunning hs
    | full _ hzero => exact absurd hzero h.mayGenerate
    | failed => exact absurd hr (haborted rfl)
    | refused => exact absurd hr (haborted rfl)
    | unreadable => exact absurd hr (haborted rfl)
    | unflushed => exact absurd hr (haborted rfl)
    | @generated t token d chunk ho hv hpush hfinish =>
      have hstop := not_isStop_of_finish?_eq_none hfinish
      have hparams : (t.take token d).params = s.params := ho.keeps.params_eq
      obtain ⟨ids, d', hout, hlength⟩ := ih (h.next ho hv hpush hfinish) hr (by rw [hparams, hstep])
      have hlonger := h.nextWith_withParams ho hv hpush hstop hstep hmost hlt
      exact ⟨token :: ids, d', hout.cons ho (ho.decoder_eq_of_push hpush) hnext hlonger, hlength⟩
    | @finished t token d d' chunk rest reason ho hv hpush hfinish hflush =>
      rw [(run_of_not_isRunning (not_isRunning_of_finished rfl) limit).1] at hr
      subst hr
      obtain rfl := Phase.finished.inj hend
      obtain ⟨hstop, hfull⟩ := of_finish?_eq_length hfinish
      obtain ⟨-, halike, -, hreadable⟩ := h.take ho hv hpush hstop
      have hlonger := h.nextWith_withParams ho hv hpush hstop hstep hmost hlt
      refine ⟨[token], d, .last ho (ho.decoder_eq_of_push hpush) hnext hlonger halike hreadable, ?_⟩
      -- There was room for a token, and there is none behind it.
      rw [isFull_eq (k := k) (by rw [← h.maxTokens_eq, ← ho.keeps.params_eq]; rfl)] at hfull
      have hle : k ≤ (t.tokens ++ [token]).length := of_decide_eq_true hfull
      have hlt' := h.length_lt
      show (t.tokens ++ [token]).length = k
      rw [ho.keeps.tokens_eq, List.length_append, List.length_singleton] at hle ⊢
      omega

end Session
end GuidedDecoding
