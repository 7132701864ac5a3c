import GuidedDecoding.Proofs.Detokenizer
import GuidedDecoding.Proofs.Pattern.Text
import GuidedDecoding.Proofs.Session.Run

/-!
# Sessions under a pattern

However tokens cut up a text, and whatever the model scores and the sampler picks: what a session under a
pattern has generated can still become a match, and it is one when the session ends by itself
(`run_obeys_pattern`). A token outside the mask of its step never becomes part of it.

The invariant is `Obeys`: the walk of the recognizer is that of the bytes generated so far. It is carried by
the steps that add a token, in `Obeys.take`.
-/

namespace GuidedDecoding.Session

variable {κ ρ σ : Type} {observe : Observer σ} {seen : σ} {s t : Session κ ρ} {l : Lexicon} {p : Pattern}
  {table : Array Bytes} {token : TokenId} {d : Detokenizer}

def bytes (l : Lexicon) (table : Array Bytes) (s : Session κ ρ) : Bytes :=
  s.tokens.flatMap (l.contribution table)

/-- What the session has generated so far is on the way to a match of the pattern, and is one if the session
has ended by itself. -/
structure Obeys (l : Lexicon) (p : Pattern) (table : Array Bytes) (s : Session κ ρ) : Prop where
  bound : s.gate.matcher.Bound l (.pattern p)
  follows : s.gate.matcher.recognizer.Follows l (.pattern p) (s.bytes l table)
  decoder_eq : s.detokenizer.decoder = .ofBytes (l.contribution table)
  alive : (p.start.run (s.bytes l table)).isAlive = true
  stop_last : ∀ id ∈ s.tokens.dropLast, id ∉ l.stop
  no_stop : s.IsRunning → ∀ id ∈ s.tokens, id ∉ l.stop
  complete : s.phase = .finished .stopToken ∨ s.phase = .finished .grammarComplete →
    (p.start.run (s.bytes l table)).isComplete = true

/-! ### The start -/

theorem obeys_start {m : Matcher} {model : LanguageModel κ} {sampler : Sampler ρ} {chance : ρ}
    {params : GenerationParams} {input : List TokenId} (hm : Matcher.start l (.pattern p) = .ok m)
    (hs : start model (.ofMatcher m) sampler chance l.decoder params input = .ok s) :
    ∃ table, l.table = .ok table ∧ s.Obeys l p table := by
  obtain ⟨hgate, hdetokenizer, htokens, hphase⟩ := start_eq_ok hs
  obtain ⟨-, r, hr, rfl⟩ := Matcher.start_eq_ok hm
  have hbound := Matcher.bound_of_start hm
  have hfollows := (Recognizer.follows_of_bind hr).1
  obtain ⟨-, table, ht, -⟩ := id hfollows
  refine ⟨table, ht, ?_⟩
  have hbytes : s.bytes l table = [] := by rw [bytes, htokens, List.flatMap_nil]
  exact
    { bound := by rw [hgate]; exact hbound
      follows := by rw [hgate, hbytes]; exact hfollows
      decoder_eq := by rw [hdetokenizer]; exact Lexicon.decoder_eq ht
      alive := by rw [hbytes]; rfl
      stop_last := fun id hid => by rw [htokens] at hid; cases hid
      no_stop := fun _ id hid => by rw [htokens] at hid; cases hid
      complete := fun hend => by rw [hphase] at hend; rcases hend with hend | hend <;> cases hend }

/-! ### One step -/

/-- Up to the token the matcher of the gate stays as it is. -/
theorem Obeys.bound_of_keeps (h : s.Obeys l p table) (hkeeps : Keeps s t) :
    t.gate.matcher.Bound l (.pattern p) := by
  rw [hkeeps.matcher_eq]
  exact h.bound

theorem Obeys.follows_of_keeps (h : s.Obeys l p table) (hkeeps : Keeps s t) :
    t.gate.matcher.recognizer.Follows l (.pattern p) (s.bytes l table) := by
  rw [hkeeps.matcher_eq]
  exact h.follows

/-- A session that ends without a further token obeys the pattern, unless it claims to end by itself. -/
theorem Obeys.of_keeps (h : s.Obeys l p table) (hkeeps : Keeps s t) {phase : Phase}
    (hphase : phase = .aborted ∨ phase = .finished .length) :
    Obeys l p table { t with phase := phase } := by
  have hbound := h.bound_of_keeps hkeeps
  have hfollows := h.follows_of_keeps hkeeps
  have hlast := h.stop_last
  rw [← hkeeps.tokens_eq] at hlast
  have hbytes : Session.bytes l table { t with phase := phase } = s.bytes l table := by
    rw [bytes, bytes, ← hkeeps.tokens_eq]
  exact
    { bound := hbound
      follows := by rw [hbytes]; exact hfollows
      decoder_eq := by rw [← h.decoder_eq, ← hkeeps.detokenizer_eq]
      alive := by rw [hbytes]; exact h.alive
      stop_last := hlast
      no_stop := fun hrunning => by
        rcases hphase with rfl | rfl <;> rcases hrunning with hrunning | hrunning <;> cases hrunning
      complete := fun hend => by
        rcases hphase with rfl | rfl <;> rcases hend with hend | hend <;> cases hend }

/-- A session that takes a token obeys the pattern: it does not run on behind a stop token, and it ends by
itself only behind a match. -/
theorem Obeys.take (h : s.Obeys l p table) (ht : l.table = .ok table) (ho : s.Offers t token)
    (hv : (t.gate.matcher.accept token).2 ≠ .rejected) (hd : d.decoder = t.detokenizer.decoder)
    {phase : Phase} (hrunning : phase = .prefill ∨ phase = .decode → token ∉ l.stop)
    (hcomplete : phase = .finished .stopToken ∨ phase = .finished .grammarComplete →
      (t.gate.matcher.accept token).2 = .terminal) :
    Obeys l p table { t.take token d with phase := phase } := by
  have hkeeps := ho.keeps
  have hfollows := h.follows_of_keeps hkeeps
  have houtcome := Matcher.recognizer_accept hv
  obtain ⟨halive, -, hmatch⟩ := hfollows.walk_outcome ht houtcome hv
  have htokens : t.tokens = s.tokens := hkeeps.tokens_eq
  have hbytes : Session.bytes l table { t.take token d with phase := phase } =
      s.bytes l table ++ l.contribution table token := by
    show (t.tokens ++ [token]).flatMap (l.contribution table) = _
    rw [htokens, List.flatMap_append, List.flatMap_singleton, bytes]
  refine
    { bound := (h.bound_of_keeps hkeeps).accept token
      follows := by rw [hbytes]; exact hfollows.outcome ht houtcome hv
      decoder_eq := hd.trans (by rw [hkeeps.detokenizer_eq, h.decoder_eq])
      alive := ?_
      stop_last := ?_
      no_stop := ?_
      complete := fun hend => by rw [hbytes]; exact hmatch (hcomplete hend) }
  · rw [hbytes]
    by_cases hstop : token ∈ l.stop
    · -- A stop token has no bytes of its own.
      rw [Lexicon.contribution_of_isStop (Lexicon.isStop_iff.mpr hstop), List.append_nil]
      exact h.alive
    · exact halive hstop
  · -- All tokens but the new one were there while the session was running.
    show ∀ id ∈ (t.tokens ++ [token]).dropLast, id ∉ l.stop
    rw [List.dropLast_concat, htokens]
    exact h.no_stop ho.isRunning
  · intro hphase id hid
    have hid' : id ∈ t.tokens ++ [token] := hid
    rw [htokens, List.mem_append, List.mem_singleton] at hid'
    rcases hid' with hid' | rfl
    · exact h.no_stop ho.isRunning id hid'
    · exact hrunning hphase

theorem not_isStop_of_finish?_eq_none {v : Verdict} {disposition : Disposition}
    (h : s.finish? token v disposition = none) : s.gate.matcher.lexicon.isStop token = false := by
  unfold finish? at h
  cases hstop : s.gate.matcher.lexicon.isStop token with
  | false => rfl
  | true =>
    rw [hstop] at h
    cases h

theorem isStop_of_finish?_eq_stopToken {v : Verdict} {disposition : Disposition}
    (h : s.finish? token v disposition = some .stopToken) :
    s.gate.matcher.lexicon.isStop token = true := by
  unfold finish? at h
  split at h
  · assumption
  · repeat' split at h
    all_goals cases h

theorem terminal_of_finish?_eq_grammarComplete {v : Verdict} {disposition : Disposition}
    (h : s.finish? token v disposition = some .grammarComplete) : v = .terminal := by
  unfold finish? at h
  repeat' split at h
  all_goals first | assumption | cases h

/-- The gate that took a token is over the same lexicon, and of the same pattern. -/
theorem Obeys.bound_take (h : s.Obeys l p table) (ho : s.Offers t token) :
    (t.take token d).gate.matcher.Bound l (.pattern p) :=
  (h.bound_of_keeps ho.keeps).accept token

/-- A session that ends by itself has taken a token that ends the text. -/
theorem Obeys.terminal_of_finish? (h : s.Obeys l p table) (ht : l.table = .ok table)
    (ho : s.Offers t token) (hv : (t.gate.matcher.accept token).2 ≠ .rejected) {reason : StopReason}
    {disposition : Disposition}
    (hfinish : (t.take token d).finish? token (t.gate.matcher.accept token).2 disposition = some reason)
    (hreason : reason = .stopToken ∨ reason = .grammarComplete) :
    (t.gate.matcher.accept token).2 = .terminal := by
  rcases hreason with rfl | rfl
  · have hstop := isStop_of_finish?_eq_stopToken hfinish
    rw [(h.bound_take ho).lexicon_eq, Lexicon.isStop_iff] at hstop
    have hfollows := h.follows_of_keeps ho.keeps
    exact (hfollows.walk_outcome ht (Matcher.recognizer_accept hv) hv).2.1 hstop
  · exact terminal_of_finish?_eq_grammarComplete hfinish

theorem decoder_eq_of_push {t : Session κ ρ} {answer : Except Failure String}
    (h : t.detokenizer.push token = (d, answer)) : d.decoder = t.detokenizer.decoder := by
  have hdecoder := t.detokenizer.decoder_push token
  rw [h] at hdecoder
  exact hdecoder

theorem decoder_eq_of_flush {d' : Detokenizer} {answer : Except Failure String}
    (h : d.flush = (d', answer)) : d'.decoder = d.decoder := by
  have hdecoder := d.decoder_flush
  rw [h] at hdecoder
  exact hdecoder

/-- A step keeps the pattern. -/
theorem Obeys.nextWith (h : s.Obeys l p table) (ht : l.table = .ok table) (observe : Observer σ)
    (seen : σ) : (s.nextWith observe seen).1.Obeys l p table := by
  have hmove := nextWith_move observe seen s
  generalize s.nextWith observe seen = next at hmove ⊢
  obtain ⟨next, seen', item⟩ := next
  dsimp only at hmove ⊢
  cases hmove with
  | ended => exact h
  | full => exact h.of_keeps (.refl s) (Or.inr rfl)
  | failed _ _ hpropose => exact h.of_keeps (keeps_of_propose hpropose) (Or.inl rfl)
  | refused ho => exact h.of_keeps ho.keeps (Or.inl rfl)
  | unreadable ho hv hpush =>
    exact h.take ht ho hv (decoder_eq_of_push hpush) (by simp) (by simp)
  | generated ho hv hpush hfinish =>
    -- The session runs on, so the token was no stop token.
    have hstop := not_isStop_of_finish?_eq_none hfinish
    rw [(h.bound_take ho).lexicon_eq] at hstop
    have hphase := (mask_propose ho.isRunning ho.propose_eq).2
    refine h.take ht ho hv (decoder_eq_of_push hpush) ?_ ?_
    · intro _ hid
      rw [Lexicon.isStop_iff.mpr hid] at hstop
      cases hstop
    · rw [hphase]
      simp
  | unflushed ho hv hpush hflush =>
    exact h.take ht ho hv ((decoder_eq_of_flush hflush).trans (decoder_eq_of_push hpush)) (by simp)
      (by simp)
  | finished ho hv hpush hfinish hflush =>
    refine h.take ht ho hv ((decoder_eq_of_flush hflush).trans (decoder_eq_of_push hpush)) (by simp)
      fun hend => h.terminal_of_finish? ht ho hv hfinish ?_
    simpa using hend

/-! ### Runs -/

/-- The mask of a step holds the tokens that its gate accepts. -/
theorem Obeys.mem_mask_iff (h : s.Obeys l p table) (ho : s.Offers t token) :
    token ∈ t.gate.mask ↔ (t.gate.matcher.accept token).2 ≠ .rejected := by
  rw [(mask_propose ho.isRunning ho.propose_eq).1, ho.keeps.matcher_eq, Matcher.mem_mask_iff_accept h.bound]

/-- The text of a session is that of the bytes it has generated. -/
theorem Obeys.text_eq (h : s.Obeys l p table) : s.text = .ok (Utf8.decode (s.bytes l table)) := by
  unfold text
  rw [h.decoder_eq]
  rfl

/-- Collecting a session that has ended by itself gives the bytes it has generated as a text. -/
theorem Obeys.collect? {text : String} (hp : Pattern.ofText? text = some p) {limit : Nat}
    {reason : StopReason}
    (h : (s.run observe limit seen).session.Obeys l p table)
    (hphase : (s.run observe limit seen).session.phase = .finished reason)
    (hreason : reason = .stopToken ∨ reason = .grammarComplete) :
    ∃ c, (s.collect? observe (limit + 1) seen).result = some (.ok c) ∧
      c.tokens = (s.run observe limit seen).session.tokens ∧ c.stopReason = reason ∧
      Utf8.encode c.text = (s.run observe limit seen).session.bytes l table := by
  have hcomplete := h.complete (by rw [hphase]; simpa using hreason)
  have hcompletion : (s.run observe limit seen).session.completion = .ok
      { text := Utf8.decode ((s.run observe limit seen).session.bytes l table)
        tokens := (s.run observe limit seen).session.tokens
        promptCount := (s.run observe limit seen).session.input.toList.length
        generatedCount := (s.run observe limit seen).session.tokens.length
        stopReason := reason } := by
    unfold completion stopReason?
    rw [hphase, h.text_eq]
    rfl
  rw [collect?_of_finished hphase, hcompletion]
  exact ⟨_, rfl, rfl, rfl, Utf8.encode_decode (Pattern.Walk.isText_of_isComplete hp hcomplete)⟩

/-- At every point of a run what has been generated can still become a match. When the session has ended by
itself it is one, no token but the last is a stop token, and collecting gives these bytes as a text. A token
outside the mask of its step fails the step, and only tokens inside it are added. -/
theorem run_obeys_pattern {text : String} {m : Matcher} {model : LanguageModel κ} {sampler : Sampler ρ}
    {chance : ρ} {params : GenerationParams} {input : List TokenId}
    (hp : Constraint.ofPattern text = .ok (.pattern p)) (hm : Matcher.start l (.pattern p) = .ok m)
    (hs : start model (.ofMatcher m) sampler chance l.decoder params input = .ok s)
    (observe : Observer σ) (seen : σ) :
    ∃ table, l.table = .ok table ∧ ∀ limit r, s.run observe limit seen = r →
      (p.start.run (r.session.bytes l table)).isAlive = true ∧
      (∀ reason, r.session.phase = .finished reason → reason = .stopToken ∨ reason = .grammarComplete →
        (p.start.run (r.session.bytes l table)).isComplete = true ∧
          (∀ id ∈ r.session.tokens.dropLast, id ∉ l.stop) ∧
          ∃ c, (s.collect? observe (limit + 1) seen).result = some (.ok c) ∧
            c.tokens = r.session.tokens ∧ c.stopReason = reason ∧
            Utf8.encode c.text = r.session.bytes l table) ∧
      (∀ t token, r.session.Offers t token → token ∉ t.gate.mask →
        t.tokens = r.session.tokens ∧ r.session.nextWith observe r.seen =
          ({ t with phase := .aborted }, r.seen, some (.error (.tokenNotPermitted token)))) ∧
      ((r.session.nextWith observe r.seen).1.tokens = r.session.tokens ∨
        ∃ t token, r.session.Offers t token ∧ token ∈ t.gate.mask ∧
          (r.session.nextWith observe r.seen).1.tokens = r.session.tokens ++ [token]) := by
  obtain ⟨table, ht, hstart⟩ := obeys_start hm hs
  refine ⟨table, ht, ?_⟩
  rintro limit r rfl
  have hobeys := run_induction (P := fun s => s.Obeys l p table)
    (fun s seen h => h.nextWith ht observe seen) hstart limit seen
  refine ⟨hobeys.alive, ?_, ?_, ?_⟩
  · intro reason hphase hreason
    have hcomplete := hobeys.complete (by rw [hphase]; simpa using hreason)
    exact ⟨hcomplete, hobeys.stop_last, hobeys.collect? (ofText?_of_ofPattern hp) hphase hreason⟩
  · intro t token ho hmask
    have hreject : (t.gate.matcher.accept token).2 = .rejected := by
      by_contra hv
      exact hmask ((hobeys.mem_mask_iff ho).mpr hv)
    exact ⟨ho.keeps.tokens_eq, nextWith_of_rejected ho hreject observe _⟩
  · refine (tokens_nextWith observe _ _).imp_right ?_
    rintro ⟨t, token, ho, hv, htokens⟩
    exact ⟨t, token, ho, (hobeys.mem_mask_iff ho).mpr hv, htokens⟩

def flatModel : LanguageModel Unit := ⟨(), fun _ _ => ((), .ok (.ofSingles [0, 0, 0, 0]))⟩

def scriptedSampler : Sampler (List TokenId) where
  sample
    | [], _ => ([], .error (.sampling .noCandidate))
    | id :: rest, _ => (rest, .ok id)

def abSession : Session Unit (List TokenId) where
  model := flatModel
  sampler := scriptedSampler
  params := {}
  input := ⟨[], 0⟩
  cache := ()
  gate := .ofMatcher LogitGate.abMatcher
  chance := [0, 1, 3]
  detokenizer := { decoder := LogitGate.letters.decoder }

/-- The session gives the text `ab`. -/
theorem run_obeys_pattern_ab :
    ∃ c, (abSession.collect? .silent 4 ()).result = some (.ok c) ∧
      Utf8.encode c.text = [0x61, 0x62] := by
  have hp : Constraint.ofPattern "ab" = .ok (.pattern LogitGate.abPattern) := by cbv
  have hm : Matcher.start LogitGate.letters (.pattern LogitGate.abPattern) = .ok LogitGate.abMatcher := by
    cbv
  have hs : start flatModel (.ofMatcher LogitGate.abMatcher) scriptedSampler [0, 1, 3]
      LogitGate.letters.decoder {} [0] = .ok abSession := rfl
  obtain ⟨table, ht, hrun⟩ := run_obeys_pattern hp hm hs .silent ()
  have htable : LogitGate.letters.table = .ok #[[0x61], [0x62], [], [0x3C, 0x2F, 0x73, 0x3E]] := by cbv
  have hend : (abSession.run .silent 3 ()).session.phase = .finished .stopToken ∧
      (abSession.run .silent 3 ()).session.tokens = [0, 1, 3] := by cbv
  obtain ⟨-, hcomplete, -⟩ := hrun 3 _ rfl
  obtain ⟨-, -, c, hc, -, -, htext⟩ := hcomplete .stopToken hend.1 (Or.inl rfl)
  rw [ht, Except.ok.injEq] at htable
  subst htable
  rw [bytes, hend.2] at htext
  exact ⟨c, hc, htext⟩

end GuidedDecoding.Session
