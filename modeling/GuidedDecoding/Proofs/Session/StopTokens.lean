import GuidedDecoding.Proofs.Session.Pattern

/-!
# Stop tokens

Whatever its constraint and its decoder, a session ends with the first stop token that it generates. So if it says
that it has ended by one, this is its last token, and there is no other (`Stops.of_completion`). The text of a
completion is what the decoder makes of all tokens, the stop token among them.

The invariant is `Stops`. As long as the session is running, none of its tokens is a stop token.
-/

namespace GuidedDecoding.Session

variable {κ ρ σ : Type} {s t : Session κ ρ} {l : Lexicon} {decoder : TextDecoder} {token : TokenId}
  {d : Detokenizer}

/-- No token but the last is a stop token, and the last one is if the session has ended by it. -/
structure Stops (l : Lexicon) (decoder : TextDecoder) (s : Session κ ρ) : Prop where
  lexicon_eq : s.gate.matcher.lexicon = l
  decoder_eq : s.detokenizer.decoder = decoder
  stop_last : ∀ id ∈ s.tokens.dropLast, id ∉ l.stop
  no_stop : s.IsRunning → ∀ id ∈ s.tokens, id ∉ l.stop
  last_stop : s.phase = .finished .stopToken → ∃ id ∈ s.tokens.getLast?, id ∈ l.stop

/-- A session that has just been started has no tokens, whatever cache it is given. -/
theorem stops_start {model : LanguageModel κ} {m : Matcher} {sampler : Sampler ρ} {chance : ρ}
    {params : GenerationParams} {input : List TokenId}
    (hs : start model (.ofMatcher m) sampler chance decoder params input = .ok s) (cache : κ) :
    (s.withCache cache).Stops m.lexicon decoder := by
  obtain ⟨hgate, hdetokenizer, htokens, hphase⟩ := start_eq_ok hs
  have htokens' : (s.withCache cache).tokens = [] := htokens
  have hphase' : (s.withCache cache).phase = .prefill := hphase
  exact
    { lexicon_eq := congrArg (·.matcher.lexicon) hgate
      decoder_eq := congrArg (·.decoder) hdetokenizer
      stop_last := fun id hid => by rw [htokens'] at hid; cases hid
      no_stop := fun _ id hid => by rw [htokens'] at hid; cases hid
      last_stop := fun hend => by rw [hphase'] at hend; cases hend }

/-! ### One step -/

/-- A session that ends without a further token, and not by a stop token. -/
theorem Stops.of_keeps (h : s.Stops l decoder) (hkeeps : Keeps s t) {phase : Phase}
    (hphase : phase = .aborted ∨ phase = .finished .length) : Stops l decoder { t with phase := phase } where
  lexicon_eq := (congrArg (·.lexicon) hkeeps.matcher_eq).trans h.lexicon_eq
  decoder_eq := (congrArg (·.decoder) hkeeps.detokenizer_eq).trans h.decoder_eq
  stop_last := hkeeps.tokens_eq ▸ h.stop_last
  no_stop hrunning := by rcases hphase with rfl | rfl <;> rcases hrunning with hrunning | hrunning <;> cases hrunning
  last_stop hend := by rcases hphase with rfl | rfl <;> cases hend

/-- The gate that has taken a token is over the same lexicon. -/
theorem Stops.lexicon_take (h : s.Stops l decoder) (ho : s.Offers t token) :
    (t.take token d).gate.matcher.lexicon = l := by
  show (t.gate.matcher.accept token).1.lexicon = l
  rw [Matcher.lexicon_accept, ho.keeps.matcher_eq, h.lexicon_eq]

/-- A session that takes a token runs on only if this is no stop token. -/
theorem Stops.take (h : s.Stops l decoder) (ho : s.Offers t token) (hd : d.decoder = t.detokenizer.decoder)
    {phase : Phase} (hrunning : phase = .prefill ∨ phase = .decode → token ∉ l.stop)
    (hstop : phase = .finished .stopToken → token ∈ l.stop) :
    Stops l decoder { t.take token d with phase := phase } where
  lexicon_eq := h.lexicon_take (d := d) ho
  decoder_eq := by
    show d.decoder = decoder
    rw [hd, ho.keeps.detokenizer_eq, h.decoder_eq]
  stop_last := by
    show ∀ id ∈ (t.tokens ++ [token]).dropLast, id ∉ l.stop
    rw [List.dropLast_concat, ho.keeps.tokens_eq]
    exact h.no_stop ho.isRunning
  no_stop hphase := by
    show ∀ id ∈ t.tokens ++ [token], id ∉ l.stop
    rw [List.forall_mem_append, List.forall_mem_singleton, ho.keeps.tokens_eq]
    exact ⟨h.no_stop ho.isRunning, hrunning hphase⟩
  last_stop hend := ⟨token, by simp [Session.take], hstop hend⟩

/-- A stop token ends the session with the step that takes it. -/
theorem Stops.nextWith (h : s.Stops l decoder) (observe : Observer σ) (seen : σ) :
    (s.nextWith observe seen).1.Stops l decoder := by
  have hmove := nextWith_move observe seen s
  generalize s.nextWith observe seen = next at hmove ⊢
  obtain ⟨next, seen', item⟩ := next
  dsimp only at hmove ⊢
  -- only a move that takes a token and goes on, or ends by a reason, says anything of stop tokens
  cases hmove with
  | ended => exact h
  | full => exact h.of_keeps (.refl s) (Or.inr rfl)
  | failed _ _ hpropose => exact h.of_keeps (keeps_of_propose hpropose) (Or.inl rfl)
  | refused ho => exact h.of_keeps ho.keeps (Or.inl rfl)
  | unreadable ho _ hpush => exact h.take ho (decoder_eq_of_push hpush) (by simp) (by simp)
  | generated ho _ hpush hfinish =>
    have hstop := not_isStop_of_finish?_eq_none hfinish
    have hphase := (mask_propose ho.isRunning ho.propose_eq).2
    rw [h.lexicon_take ho] at hstop
    refine h.take ho (decoder_eq_of_push hpush) ?_ (by rw [hphase]; simp)
    intro _ hid
    rw [Lexicon.isStop_iff.mpr hid] at hstop
    cases hstop
  | unflushed ho _ hpush hflush =>
    exact h.take ho ((decoder_eq_of_flush hflush).trans (decoder_eq_of_push hpush)) (by simp) (by simp)
  | finished ho _ hpush hfinish hflush =>
    refine h.take ho ((decoder_eq_of_flush hflush).trans (decoder_eq_of_push hpush)) (by simp) ?_
    intro hend
    obtain rfl := Phase.finished.inj hend
    have hstop := isStop_of_finish?_eq_stopToken hfinish
    rwa [h.lexicon_take ho, Lexicon.isStop_iff] at hstop

/-! ### Completions -/

/-- What is completed by a stop token has it at its end, and nowhere else; its text is that of all tokens. -/
theorem Stops.of_completion (h : s.Stops l decoder) {done : Completion} (hdone : s.completion = .ok done)
    (hreason : done.stopReason = .stopToken) :
    ∃ front last, done.tokens = front ++ [last] ∧ last ∈ l.stop ∧ (∀ id ∈ front, id ∉ l.stop) ∧
      decoder.decode (front ++ [last]) = .ok done.text := by
  unfold completion at hdone
  -- a completion has a reason and a text
  cases hstop : s.stopReason? with
  | none =>
    rw [hstop] at hdone
    cases hdone
  | some reason =>
    rw [hstop] at hdone
    dsimp only at hdone
    cases htext : s.text with
    | error e =>
      rw [htext] at hdone
      cases hdone
    | ok text =>
      rw [htext] at hdone
      cases hdone
      obtain rfl : reason = .stopToken := hreason
      obtain ⟨last, hlast, hmem⟩ := h.last_stop (phase_of_stopReason? hstop)
      have hsplit : s.tokens = s.tokens.dropLast ++ [last] := (List.dropLast_append_getLast? last hlast).symm
      refine ⟨s.tokens.dropLast, last, hsplit, hmem, h.stop_last, ?_⟩
      rw [← hsplit, ← h.decoder_eq]
      exact htext

end GuidedDecoding.Session
