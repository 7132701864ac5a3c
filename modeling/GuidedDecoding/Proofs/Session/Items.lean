import GuidedDecoding.Proofs.Session.Calls
import GuidedDecoding.Proofs.Session.Pattern

/-!
# The items of a run

A run gives tokens, and behind them at most one failure (`items_of_run`). Whatever the model, the gate, the
sampler and the observer do: the session ends once, with the last token or with the failure, and does nothing
behind that; the observer is called once for each token; and the last token carries the first reason for which
the session could end there, where no token before it had any.

The invariant is `Accounts`: the tokens that a run has given are accounted for one by one. It needs tokens that
can be read, because then no text fails between taking a token and giving it out.
-/

namespace GuidedDecoding

/-- Of several reasons that with the lowest rank counts. -/
def StopReason.rank : StopReason → Nat
  | .stopToken => 0
  | .length => 1
  | .callback => 2
  | .grammarComplete => 3

/-- What an observer has seen that was called behind each of some tokens, with the tokens up to there. -/
def Observer.after {σ : Type} (observe : Observer σ) (seen : σ) (ids : List TokenId) : σ :=
  ids.inits.tail.foldl (fun seen front => (observe seen front).1) seen

/-- One more token is one more call. -/
theorem Observer.after_concat {σ : Type} (observe : Observer σ) (seen : σ) (ids : List TokenId)
    (id : TokenId) :
    observe.after seen (ids ++ [id]) = (observe (observe.after seen ids) (ids ++ [id])).1 := by
  have hinits : (ids ++ [id]).inits.tail = ids.inits.tail ++ [ids ++ [id]] := by
    rw [List.inits_append]
    cases ids <;> simp
  rw [after, hinits, List.foldl_append]
  rfl

namespace Session

variable {κ ρ σ : Type} {observe : Observer σ} {seen : σ} {s t : Session κ ρ} {l : Lexicon}
  {table : Array Bytes} {token : TokenId} {d : Detokenizer} {r : Run κ ρ σ} {gs : List Generated}

/-! ### Reasons to end -/

/-- What a session may end for that has generated `front` and then one more token. -/
def Demands (observe : Observer σ) (seen : σ) (s : Session κ ρ) (front : List TokenId) (token : TokenId) :
    StopReason → Prop
  | .stopToken => token ∈ s.gate.matcher.lexicon.stop
  | .length => ∃ most, s.params.maxTokens = some most ∧ most ≤ front.length + 1
  | .callback => (observe (observe.after seen front) (front ++ [token])).2 = .stop
  | .grammarComplete => ((s.gate.matcher.acceptAll front).accept token).2 = .terminal

/-- The reason is the first of those that hold, and there is none if none holds. -/
def Decides (holds : StopReason → Prop) : Option StopReason → Prop
  | none => ∀ reason, ¬ holds reason
  | some reason => holds reason ∧ ∀ earlier, earlier.rank < reason.rank → ¬ holds earlier

/-- The reason of a step is the first one that holds, where the four reasons are as the session asks for
them. -/
theorem finish?_decides {holds : StopReason → Prop} {v : Verdict} {disposition : Disposition}
    (hstop : holds .stopToken ↔ s.gate.matcher.lexicon.isStop token = true)
    (hlength : holds .length ↔ s.isFull = true) (hcallback : holds .callback ↔ disposition = .stop)
    (hgrammar : holds .grammarComplete ↔ v = .terminal) :
    Decides holds (s.finish? token v disposition) := by
  -- in the order of `finish?`: where a reason is found, those before it have been found not to hold
  unfold finish?
  split
  · next h => exact ⟨hstop.mpr h, fun earlier hrank => absurd hrank (Nat.not_lt_zero _)⟩
  · next hnot_stop =>
    rw [← hstop] at hnot_stop
    split
    · next h =>
      refine ⟨hlength.mpr h, ?_⟩
      intro earlier hrank
      cases earlier <;> first | exact hnot_stop | simp [StopReason.rank] at hrank
    · next hnot_full =>
      rw [← hlength] at hnot_full
      split
      · next h =>
        refine ⟨hcallback.mpr h, ?_⟩
        intro earlier hrank
        cases earlier <;> first | exact hnot_stop | exact hnot_full | simp [StopReason.rank] at hrank
      · next hproceed =>
        rw [← hcallback] at hproceed
        split
        · next h =>
          refine ⟨hgrammar.mpr h, ?_⟩
          intro earlier hrank
          cases earlier <;>
            first | exact hnot_stop | exact hnot_full | exact hproceed | simp [StopReason.rank] at hrank
        · next hcontinues =>
          rw [← hgrammar] at hcontinues
          intro reason
          cases reason <;> assumption

/-- A session is full when it has as many tokens as it may have. -/
theorem isFull_iff : s.isFull = true ↔ ∃ most, s.params.maxTokens = some most ∧ most ≤ s.tokens.length := by
  unfold isFull
  cases s.params.maxTokens <;> simp

/-! ### The account of a run -/

/-- The run of the session has given the tokens `gs`, and perhaps a failure behind them. -/
structure Accounts (bytes : TokenId → Bytes) (observe : Observer σ) (seen : σ) (s : Session κ ρ)
    (r : Run κ ρ σ) (gs : List Generated) : Prop where
  params_eq : r.session.params = s.params
  matcher_eq : r.session.gate.matcher = s.gate.matcher.acceptAll r.session.tokens
  decoder_eq : r.session.detokenizer.decoder = .ofBytes bytes
  tokens_eq : r.session.tokens = gs.map (·.token)
  seen_eq : r.seen = observe.after seen r.session.tokens
  items_eq : r.items = gs.map .ok ∧ r.session.phase ≠ .aborted ∨
    ∃ e, r.items = gs.map .ok ++ [.error e] ∧ r.session.phase = .aborted
  running : ∀ g ∈ gs.dropLast, g.finish = none
  last : ∀ g ∈ gs.getLast?, g.finish = r.session.stopReason?
  decided : ∀ i g, gs[i]? = some g →
    Decides (Demands observe seen s (r.session.tokens.take i) g.token) g.finish
  within : ∀ most, s.params.maxTokens = some most → r.session.tokens.length ≤ most
  room : r.session.IsRunning → ∀ most, s.params.maxTokens = some most → 0 < most →
    r.session.tokens.length < most
  caught : r.session.IsRunning →
    Detokenizer.Caught bytes r.session.detokenizer r.session.tokens (gs.flatMap (·.chunk.toList))
  text : ∀ reason, r.session.phase = .finished reason →
    gs.flatMap (·.chunk.toList) = Detokenizer.textOf bytes r.session.tokens
  closed : ¬ r.session.IsRunning → r.items = [] → r.isOver = true

variable {bytes : TokenId → Bytes}

structure Fresh (bytes : TokenId → Bytes) (s : Session κ ρ) : Prop where
  tokens_eq : s.tokens = []
  phase_eq : s.phase = .prefill
  detokenizer_eq : s.detokenizer = { decoder := .ofBytes bytes }

theorem Fresh.isRunning (h : s.Fresh bytes) : s.IsRunning := Or.inl h.phase_eq

/-- A session that has not taken a step accounts for an empty run. -/
theorem Fresh.accounts (h : s.Fresh bytes) (observe : Observer σ) (seen : σ) :
    Accounts bytes observe seen s ⟨s, seen, [], false⟩ [] where
  params_eq := rfl
  matcher_eq := by rw [h.tokens_eq]; rfl
  decoder_eq := by rw [h.detokenizer_eq]
  tokens_eq := h.tokens_eq
  seen_eq := by rw [h.tokens_eq]; rfl
  items_eq := Or.inl ⟨rfl, by rw [h.phase_eq]; decide⟩
  running := by simp
  last := by simp
  decided := by simp
  within := by simp [h.tokens_eq]
  room := fun _ most _ hmost => by rw [h.tokens_eq]; exact hmost
  caught := fun _ => by
    rw [h.tokens_eq, h.detokenizer_eq]
    exact Detokenizer.caught_start
  text := fun reason hphase => by rw [h.phase_eq] at hphase; cases hphase
  closed := fun hs => absurd h.isRunning hs

theorem Accounts.fail (h : Accounts bytes observe seen s r gs) (hr : r.session.IsRunning)
    (hkeeps : Keeps r.session t) (e : Failure) :
    Accounts bytes observe seen s
      ⟨{ t with phase := .aborted }, r.seen, r.items ++ [.error e], false⟩ gs where
  params_eq := hkeeps.params_eq.trans h.params_eq
  matcher_eq := by
    show t.gate.matcher = s.gate.matcher.acceptAll t.tokens
    rw [hkeeps.matcher_eq, hkeeps.tokens_eq, h.matcher_eq]
  decoder_eq := (congrArg Detokenizer.decoder hkeeps.detokenizer_eq).trans h.decoder_eq
  tokens_eq := hkeeps.tokens_eq.trans h.tokens_eq
  seen_eq := h.seen_eq.trans (congrArg _ hkeeps.tokens_eq.symm)
  items_eq := by
    rcases h.items_eq with ⟨hitems, -⟩ | ⟨_, -, haborted⟩
    · exact Or.inr ⟨e, by rw [hitems], rfl⟩
    · exact absurd hr (not_isRunning_of_aborted haborted)
  running := h.running
  last := fun g hg => (h.last g hg).trans (stopReason?_of_isRunning hr)
  decided := by
    show ∀ i g, gs[i]? = some g → Decides (Demands observe seen s (t.tokens.take i) g.token) g.finish
    rw [hkeeps.tokens_eq]
    exact h.decided
  within := by
    show ∀ most, s.params.maxTokens = some most → t.tokens.length ≤ most
    rw [hkeeps.tokens_eq]
    exact h.within
  room := fun hs => absurd hs (not_isRunning_of_aborted rfl)
  caught := fun hs => absurd hs (not_isRunning_of_aborted rfl)
  text := fun reason hphase => nomatch hphase
  closed := fun _ hitems => by simp at hitems

theorem Accounts.full (h : Accounts bytes observe seen s r gs) (hr : r.session.IsRunning)
    (hmost : r.session.params.maxTokens = some 0) :
    Accounts bytes observe seen s
      ⟨{ r.session with phase := .finished .length }, r.seen, r.items, true⟩ gs := by
  have htokens : r.session.tokens = [] := by
    rw [h.params_eq] at hmost
    exact List.eq_nil_of_length_eq_zero (Nat.le_zero.mp (h.within 0 hmost))
  have hgs : gs = [] := by
    have hmap := h.tokens_eq
    rw [htokens] at hmap
    exact List.map_eq_nil_iff.mp hmap.symm
  subst hgs
  exact
    { params_eq := h.params_eq
      matcher_eq := h.matcher_eq
      decoder_eq := h.decoder_eq
      tokens_eq := h.tokens_eq
      seen_eq := h.seen_eq
      items_eq := by
        rcases h.items_eq with ⟨hitems, -⟩ | ⟨_, -, haborted⟩
        · exact Or.inl ⟨hitems, by simp⟩
        · exact absurd hr (not_isRunning_of_aborted haborted)
      running := h.running
      last := by simp
      decided := h.decided
      within := h.within
      room := fun hs => absurd hs (not_isRunning_of_finished rfl)
      caught := fun hs => absurd hs (not_isRunning_of_finished rfl)
      text := fun _ _ => by
        show _ = Detokenizer.textOf bytes r.session.tokens
        rw [htokens]
        rfl
      closed := fun _ _ => rfl }

/-- The session has ended for the reason that its last token carries, if it carries one. -/
def Closes (phase : Phase) : Option StopReason → Prop
  | none => phase = .decode
  | some reason => phase = .finished reason

/-- While a session is running none of its tokens has a reason to end. -/
theorem Accounts.finish_eq_none (h : Accounts bytes observe seen s r gs) (hr : r.session.IsRunning)
    {g : Generated} (hg : g ∈ gs) : g.finish = none := by
  rcases List.eq_nil_or_concat gs with rfl | ⟨front, last, rfl⟩
  · cases hg
  · rw [List.concat_eq_append] at hg h
    rcases List.mem_append.mp hg with hfront | hlast
    · exact h.running g (by simpa using hfront)
    · obtain rfl := List.mem_singleton.mp hlast
      exact (h.last g (by simp)).trans (stopReason?_of_isRunning hr)

/-- A token that is taken is added to the account. -/
theorem Accounts.take (h : Accounts bytes observe seen s r gs) (ho : r.session.Offers t token) (chunk : String)
    {finish : Option StopReason} {phase : Phase}
    (hfinish : (t.take token d).finish? token (t.gate.matcher.accept token).2
      (observe r.seen (t.tokens ++ [token])).2 = finish)
    (hphase : Closes phase finish) (hdecoder : d.decoder = .ofBytes bytes)
    (hcaught : finish = none → Detokenizer.Caught bytes d (r.session.tokens ++ [token])
      (gs.flatMap (·.chunk.toList) ++ chunk.toList))
    (htext : finish ≠ none → gs.flatMap (·.chunk.toList) ++ chunk.toList =
      Detokenizer.textOf bytes (r.session.tokens ++ [token])) :
    Accounts bytes observe seen s
      ⟨{ t.take token d with phase := phase }, (observe r.seen (t.tokens ++ [token])).1,
        r.items ++ [.ok ⟨token, chunk, finish⟩], false⟩ (gs ++ [⟨token, chunk, finish⟩]) := by
  have hkeeps := ho.keeps
  have htokens : t.tokens ++ [token] = r.session.tokens ++ [token] := by rw [hkeeps.tokens_eq]
  have hmatcher : t.gate.matcher = s.gate.matcher.acceptAll r.session.tokens :=
    hkeeps.matcher_eq.trans h.matcher_eq
  have hparams : t.params = s.params := hkeeps.params_eq.trans h.params_eq
  have hitems : r.items = gs.map .ok := by
    rcases h.items_eq with ⟨hitems, -⟩ | ⟨_, -, haborted⟩
    · exact hitems
    · exact absurd ho.isRunning (not_isRunning_of_aborted haborted)
  have hlength : r.session.tokens.length = gs.length := by rw [h.tokens_eq, List.length_map]
  have hdecides : Decides (Demands observe seen s r.session.tokens token) finish := by
    rw [← hfinish]
    apply finish?_decides
    · show token ∈ s.gate.matcher.lexicon.stop ↔
        (t.gate.matcher.accept token).1.lexicon.isStop token = true
      rw [Matcher.lexicon_accept, hmatcher, Matcher.lexicon_acceptAll, Lexicon.isStop_iff]
    · rw [isFull_iff]
      show (∃ most, s.params.maxTokens = some most ∧ most ≤ r.session.tokens.length + 1) ↔
        ∃ most, t.params.maxTokens = some most ∧ most ≤ (t.tokens ++ [token]).length
      rw [hparams, htokens, List.length_append, List.length_singleton]
    · show (observe (observe.after seen r.session.tokens) (r.session.tokens ++ [token])).2 = .stop ↔ _
      rw [htokens, h.seen_eq]
    · show ((s.gate.matcher.acceptAll r.session.tokens).accept token).2 = .terminal ↔ _
      rw [hmatcher]
  have hshort : ∀ most, s.params.maxTokens = some most → r.session.tokens.length < most := by
    intro most hmost
    refine h.room ho.isRunning most hmost (Nat.pos_of_ne_zero ?_)
    rintro rfl
    exact ho.mayGenerate (h.params_eq ▸ hmost)
  exact
    { params_eq := hparams
      matcher_eq := by
        show (t.gate.matcher.accept token).1 = s.gate.matcher.acceptAll (t.tokens ++ [token])
        rw [htokens, Matcher.acceptAll_concat, hmatcher]
      decoder_eq := hdecoder
      tokens_eq := by
        show t.tokens ++ [token] = _
        rw [htokens, h.tokens_eq, List.map_append]
        rfl
      seen_eq := by
        show (observe r.seen (t.tokens ++ [token])).1 = observe.after seen (t.tokens ++ [token])
        rw [htokens, Observer.after_concat, h.seen_eq]
      items_eq := Or.inl ⟨by rw [hitems, List.map_append]; rfl, by
        cases finish with
        | none => rw [hphase]; simp
        | some reason => rw [hphase]; simp⟩
      running := fun g hg => h.finish_eq_none ho.isRunning (by simpa using hg)
      last := by
        intro g hg
        obtain rfl : ⟨token, chunk, finish⟩ = g := by simpa using hg
        cases finish with
        | none => rw [hphase]; rfl
        | some reason => rw [hphase]; rfl
      decided := by
        intro i g hg
        show Decides (Demands observe seen s ((t.tokens ++ [token]).take i) g.token) g.finish
        rw [htokens]
        by_cases hi : i < gs.length
        · rw [List.getElem?_append_left hi] at hg
          rw [List.take_append_of_le_length (by omega)]
          exact h.decided i g hg
        · have hi' : i = gs.length := by
            have hlt := (List.getElem?_eq_some_iff.mp hg).1
            rw [List.length_append, List.length_singleton] at hlt
            omega
          subst hi'
          obtain rfl : ⟨token, chunk, finish⟩ = g := by simpa using hg
          rw [← hlength, List.take_left']
          · exact hdecides
          · rfl
      within := by
        intro most hmost
        show (t.tokens ++ [token]).length ≤ most
        rw [htokens, List.length_append, List.length_singleton]
        exact hshort most hmost
      room := by
        intro hs most hmost hpos
        show (t.tokens ++ [token]).length < most
        rw [htokens, List.length_append, List.length_singleton]
        cases finish with
        | none =>
          have hnot : ¬ Demands observe seen s r.session.tokens token .length := hdecides .length
          by_contra hle
          exact hnot ⟨most, hmost, by omega⟩
        | some reason => exact absurd hs (not_isRunning_of_finished hphase)
      caught := by
        intro hs
        cases finish with
        | none =>
          show Detokenizer.Caught bytes d (t.tokens ++ [token]) _
          rw [htokens, List.flatMap_append, List.flatMap_singleton]
          exact hcaught rfl
        | some reason => exact absurd hs (not_isRunning_of_finished hphase)
      text := by
        intro reason hreason
        cases finish with
        | none => cases hphase.symm.trans hreason
        | some reason' =>
          show _ = Detokenizer.textOf bytes (t.tokens ++ [token])
          rw [htokens, List.flatMap_append, List.flatMap_singleton]
          exact htext nofun
      closed := fun _ hnil => by simp at hnil }

/-- One step more is accounted for. -/
theorem Accounts.further (h : Accounts bytes observe seen s r gs) :
    ∃ gs', Accounts bytes observe seen s (r.further observe) gs' := by
  have hmove := nextWith_move observe r.seen r.session
  unfold Run.further
  generalize r.session.nextWith observe r.seen = next at hmove ⊢
  obtain ⟨next, seen', item⟩ := next
  dsimp only at hmove ⊢
  cases hmove with
  | ended hs =>
    exact ⟨gs, { h with closed := fun _ _ => rfl }⟩
  | full hs hmost => exact ⟨gs, h.full hs hmost⟩
  | failed hs _ hpropose => exact ⟨gs, h.fail hs (keeps_of_propose hpropose) _⟩
  | refused ho => exact ⟨gs, h.fail ho.isRunning ho.keeps _⟩
  | unreadable ho _ hpush =>
    -- Tokens that stand for bytes always have a text.
    obtain ⟨d, chunk, hpush', -⟩ := (h.caught ho.isRunning).push _
    rw [ho.keeps.detokenizer_eq] at hpush
    cases hpush.symm.trans hpush'
  | @generated t token d chunk ho _ hpush hfinish =>
    obtain ⟨d', chunk', hpush', hcaught⟩ := (h.caught ho.isRunning).push token
    have hdecoder := decoder_eq_of_push hpush
    rw [ho.keeps.detokenizer_eq] at hpush hdecoder
    cases hpush.symm.trans hpush'
    have hphase : ({ t.take token d with phase := .decode } : Session κ ρ) = t.take token d := by
      rw [← (mask_propose ho.isRunning ho.propose_eq).2]
      rfl
    have hcloses : Closes .decode none := rfl
    have htake := h.take ho chunk hfinish hcloses (hdecoder.trans h.decoder_eq) (fun _ => hcaught)
      (fun hne => absurd rfl hne)
    rw [hphase] at htake
    exact ⟨_, htake⟩
  | unflushed ho _ hpush hflush =>
    obtain ⟨d, chunk, hpush', hcaught⟩ := (h.caught ho.isRunning).push _
    rw [ho.keeps.detokenizer_eq] at hpush
    cases hpush.symm.trans hpush'
    obtain ⟨d', rest, hflush', -⟩ := hcaught.flush
    cases hflush.symm.trans hflush'
  | @finished t token d d' chunk rest reason ho _ hpush hfinish hflush =>
    obtain ⟨d₁, chunk₁, hpush', hcaught⟩ := (h.caught ho.isRunning).push token
    have hdecoder := decoder_eq_of_push hpush
    rw [ho.keeps.detokenizer_eq] at hpush hdecoder
    cases hpush.symm.trans hpush'
    obtain ⟨d₂, rest₂, hflush', hrest⟩ := hcaught.flush
    cases hflush.symm.trans hflush'
    have hfinish' : (t.take token d').finish? token (t.gate.matcher.accept token).2
        (observe r.seen (t.tokens ++ [token])).2 = some reason := hfinish
    have hcloses : Closes (.finished reason) (some reason) := rfl
    have htake := h.take ho (chunk ++ rest) hfinish' hcloses
      (((decoder_eq_of_flush hflush).trans hdecoder).trans h.decoder_eq) nofun
      (fun _ => by rw [String.toList_append, ← List.append_assoc, hrest])
    exact ⟨_, htake⟩

/-! ### Whole runs -/

theorem accounts_run (h : s.Fresh bytes) (observe : Observer σ) (seen : σ) (limit : Nat) :
    ∃ gs, Accounts bytes observe seen s (s.run observe limit seen) gs := by
  induction limit with
  | zero => exact ⟨[], h.accounts observe seen⟩
  | succ limit ih =>
    obtain ⟨gs, haccounts⟩ := ih
    rw [run_succ]
    exact haccounts.further

/-- A session that has just been started is fresh, whatever cache it is given. -/
theorem fresh_start {model : LanguageModel κ} {gate : LogitGate} {sampler : Sampler ρ} {chance : ρ}
    {params : GenerationParams} {input : List TokenId} (ht : l.table = .ok table)
    (hs : start model gate sampler chance l.decoder params input = .ok s) (cache : κ) :
    (s.withCache cache).Fresh (l.contribution table) := by
  obtain ⟨-, hdetokenizer, htokens, hphase⟩ := start_eq_ok hs
  exact ⟨htokens, hphase, hdetokenizer.trans (by rw [Lexicon.decoder_eq ht])⟩

/-- A session is running unless it has failed, ended with a token, or said that there is no further one. -/
theorem Accounts.isRunning_iff (h : Accounts bytes observe seen s r gs)
    (hover : r.isOver = true → ¬ r.session.IsRunning) :
    r.session.IsRunning ↔ r.isOver = false ∧ ∀ item ∈ r.items, ∃ g, item = .ok g ∧ g.finish = none := by
  constructor
  · intro hs
    refine ⟨Bool.eq_false_iff.mpr fun hr => hover hr hs, ?_⟩
    rcases h.items_eq with ⟨hitems, -⟩ | ⟨_, -, haborted⟩
    · intro item hitem
      rw [hitems] at hitem
      obtain ⟨g, hg, rfl⟩ := List.mem_map.mp hitem
      exact ⟨g, rfl, h.finish_eq_none hs hg⟩
    · exact absurd hs (not_isRunning_of_aborted haborted)
  · rintro ⟨hopen, hitems⟩
    by_contra hs
    rcases h.items_eq with ⟨heq, haborted⟩ | ⟨e, heq, -⟩
    · rcases List.eq_nil_or_concat gs with rfl | ⟨front, last, rfl⟩
      · rw [h.closed hs heq] at hopen
        cases hopen
      · -- The last token carries a reason, since the session has ended for one.
        rw [List.concat_eq_append] at heq h
        obtain ⟨g, hg, hfinish⟩ := hitems (.ok last) (by rw [heq]; simp)
        cases hg
        rw [h.last last (by simp)] at hfinish
        exact hs (isRunning_of_stopReason? hfinish haborted)
    · obtain ⟨g, hg, -⟩ := hitems (.error e) (by rw [heq]; simp)
      cases hg

/-- A run gives tokens and behind them at most one failure, which aborts the session; only the last token
carries a reason, that of the session. The session runs on until one of these, or the answer that there is
nothing more; then it stays as it is and asks nothing of its model. The observer has been called once for each
token, with the tokens up to it. No more tokens are generated than allowed, and if none is allowed the model is
not asked. Each token carries the first reason for which the session could end there. -/
theorem items_of_run {model : LanguageModel κ} {gate : LogitGate} {sampler : Sampler ρ} {chance : ρ}
    {params : GenerationParams} {input : List TokenId} {fresh : Session κ ρ} (ht : l.table = .ok table)
    (hfresh : start model gate sampler chance l.decoder params input = .ok fresh) {cache : κ}
    (hs : fresh.withCache cache = s) (observe : Observer σ) (seen : σ) (limit : Nat)
    (hr : s.run observe limit seen = r) :
    ∃ gs : List Generated,
      r.session.tokens = gs.map (·.token) ∧
      (r.items = gs.map .ok ∧ r.session.phase ≠ .aborted ∨
        ∃ e, r.items = gs.map .ok ++ [.error e] ∧ r.session.phase = .aborted ∧
          r.session.stopReason? = none) ∧
      (∀ more, r.items <+: (s.run observe (limit + more) seen).items) ∧
      (∀ g ∈ gs.dropLast, g.finish = none) ∧
      (∀ g ∈ gs.getLast?, g.finish = r.session.stopReason?) ∧
      (r.session.IsRunning ↔
        r.isOver = false ∧ ∀ item ∈ r.items, ∃ g, item = .ok g ∧ g.finish = none) ∧
      (¬ r.session.IsRunning → ∀ (τ : Type) (observe' : Observer τ) (seen' : τ),
        r.session.nextWith observe' seen' = (r.session, seen', none) ∧
          ∀ limit', r.session.calls observe' limit' seen' = []) ∧
      r.seen = observe.after seen r.session.tokens ∧
      (∀ most, params.maxTokens = some most → r.session.tokens.length ≤ most) ∧
      (params.maxTokens = some 0 → s.calls observe limit seen = [] ∧
        (0 < limit → r = ⟨{ s with phase := .finished .length }, seen, [], true⟩)) ∧
      ∀ i g, gs[i]? = some g →
        Decides (Demands observe seen s (r.session.tokens.take i) g.token) g.finish := by
  have hstart : s.Fresh (l.contribution table) := by
    rw [← hs]
    exact fresh_start ht hfresh cache
  have hparams : s.params = params := by
    rw [← hs, ← params_of_start hfresh]
    rfl
  subst hr
  obtain ⟨gs, h⟩ := accounts_run hstart observe seen limit
  refine ⟨gs, h.tokens_eq, ?_, ?_, h.running, h.last, h.isRunning_iff not_isRunning_of_isOver, ?_,
    h.seen_eq, ?_, ?_, h.decided⟩
  · rcases h.items_eq with hitems | ⟨e, hitems, haborted⟩
    · exact Or.inl hitems
    · exact Or.inr ⟨e, hitems, haborted, by rw [stopReason?, haborted]⟩
  · intro more
    rw [run_add]
    exact List.prefix_append _ _
  · intro hended τ observe' seen'
    exact ⟨nextWith_of_not_isRunning hended observe' seen',
      fun limit' => (calls_eq_nil_iff _ _ _ _).mpr (Or.inr (Or.inl hended))⟩
  · rw [← hparams]
    exact h.within
  · intro hmost
    rw [← hparams] at hmost
    refine ⟨(calls_eq_nil_iff _ _ _ _).mpr (Or.inr (Or.inr hmost)), ?_⟩
    intro hpos
    obtain ⟨limit, rfl⟩ := Nat.exists_eq_add_of_lt hpos
    rw [Nat.zero_add, run, nextWith_full hstart.isRunning hmost]

def recorder : Observer CallLog := fun log ids => (log ++ [ids], .proceed)

/-- The session that gives `a`, `b` and the end calls its observer three times, and nothing comes behind. -/
theorem items_of_run_ab :
    LogitGate.letters.table = .ok #[[0x61], [0x62], [], [0x3C, 0x2F, 0x73, 0x3E]] ∧
      start flatModel (.ofMatcher LogitGate.abMatcher) scriptedSampler [0, 1, 3]
        LogitGate.letters.decoder {} [0] = .ok abSession ∧
      (abSession.run recorder 4 []).seen = [[0], [0, 1], [0, 1, 3]] ∧
      (abSession.run recorder 4 []).session.calls recorder 9 [] = [] := by
  have htable : LogitGate.letters.table = .ok #[[0x61], [0x62], [], [0x3C, 0x2F, 0x73, 0x3E]] := by cbv
  have hs : start flatModel (.ofMatcher LogitGate.abMatcher) scriptedSampler [0, 1, 3]
      LogitGate.letters.decoder {} [0] = .ok abSession := rfl
  have hwithCache : abSession.withCache () = abSession := rfl
  obtain ⟨gs, -, -, -, -, -, -, hended, hseen, -⟩ :=
    items_of_run htable hs hwithCache recorder [] 4 rfl
  have hend : (abSession.run recorder 4 []).session.phase = .finished .stopToken ∧
      (abSession.run recorder 4 []).session.tokens = [0, 1, 3] := by cbv
  refine ⟨htable, hs, ?_, (hended (not_isRunning_of_finished hend.1) _ recorder []).2 9⟩
  rw [hend.2] at hseen
  exact hseen

end Session
end GuidedDecoding
