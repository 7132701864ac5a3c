import GuidedDecoding.Proofs.Session.Budget
import GuidedDecoding.Proofs.Session.Stream

/-!
# Sessions that go on from a cache

Without a grammar, where the best score wins and no observer stops it, a generation can be taken up where it has
reached the number of tokens allowed: the session of its last token on its cache generates what a longer session
over the whole input would have generated from there (`run_of_continuation`). For the cache holds the input and all
tokens but the last one, and nothing else of what has been generated matters for the scores.

The relation between the two sessions is `Continues`, and every step preserves it (`Continues.nextWith`). The
detokenizers of the two are at different places, so their texts differ; but a token has a text in both or in none.
-/

namespace GuidedDecoding

/-- Where the best score wins the generator is not used. -/
theorem Sampling.sample_of_isGreedy {p : SamplingParams} (h : p.isGreedy = true) (g : Random.Generator)
    (scores : List Float32) :
    (sampler p).sample g scores =
      (g, match scores with
        | [] => .error (.tensor .shape)
        | x :: rest => .ok (best x rest)) := by
  cases scores with
  | nil => rfl
  | cons x rest =>
    simp only [sampler, h, Bool.true_or]
    rfl

namespace Session

variable {κ : Type} {front : List TokenId} {w u t t' : Session κ Random.Generator} {token : TokenId}
  {d d' : Detokenizer}

def IsGreedy (s : Session κ Random.Generator) : Prop :=
  ∃ p : SamplingParams, p.isGreedy = true ∧ s.sampler = Sampling.sampler p

/-- The session `u` stands where the session `w` stands, which has generated `front` before. -/
structure Aligned (front : List TokenId) (w u : Session κ Random.Generator) : Prop where
  model_eq : w.model = u.model
  cache_eq : w.cache = u.cache
  greedy : w.IsGreedy
  greedy' : u.IsGreedy
  alike : w.gate.matcher.Alike u.gate.matcher
  decoder_eq : w.detokenizer.decoder = u.detokenizer.decoder
  tokenwise : u.detokenizer.decoder.FailsTokenwise
  readable : w.detokenizer.Readable
  readable' : u.detokenizer.Readable
  tokens_eq : w.tokens = front ++ u.tokens
  last_eq : front.getLast? = some u.input.last
  budget : ∃ more, 0 < more ∧ w.params.maxTokens = some (front.length + more) ∧ u.params.maxTokens = some more

namespace Aligned

/-! ### Up to the token -/

/-- The model reads the same token next: the input of the second session ends with the last one of `front`. -/
theorem pending_eq (h : Aligned front w u) : w.pending = u.pending := by
  unfold pending
  rw [h.tokens_eq, List.getLastD_eq_getLast?, List.getLastD_eq_getLast?, List.getLast?_append, h.last_eq]
  cases u.tokens.getLast? <;> rfl

/-- Both sessions sample the same token, and neither uses up chance. -/
theorem sample_eq (h : Aligned front w u) (scores : List Float32) :
    ∃ answer, w.sampler.sample w.chance scores = (w.chance, answer) ∧
      u.sampler.sample u.chance scores = (u.chance, answer) := by
  obtain ⟨p, hp, hw⟩ := h.greedy
  obtain ⟨p', hp', hu⟩ := h.greedy'
  exact ⟨_, by rw [hw, Sampling.sample_of_isGreedy hp], by rw [hu, Sampling.sample_of_isGreedy hp']⟩

/-- The scores are the same, and masked alike. -/
theorem scores (h : Aligned front w u) :
    w.scores.2 = u.scores.2 ∧ Aligned front w.scores.1 u.scores.1 := by
  unfold Session.scores
  rw [h.model_eq, h.pending_eq, h.cache_eq]
  rcases u.model.forward [u.pending] u.cache with ⟨cache, e | output⟩
  · exact ⟨rfl, { h with model_eq := rfl, cache_eq := rfl }⟩
  · dsimp only
    cases output.lastScores with
    | error e => exact ⟨rfl, { h with model_eq := rfl, cache_eq := rfl }⟩
    | ok row =>
      dsimp only
      rw [LogitGate.apply_fst, LogitGate.apply_snd, LogitGate.apply_fst, LogitGate.apply_snd, h.alike.mask]
      exact ⟨rfl, { h with model_eq := rfl, cache_eq := rfl }⟩

/-- A session whose input has been read, or is one token, has nothing to read before its first step. -/
theorem prefill_eq (hu : u.phase = .decode ∨ u.phase = .prefill ∧ u.input.lead = []) :
    u.prefill = ({ u with phase := .decode }, .ok ()) := by
  unfold prefill
  rcases hu with hphase | ⟨hphase, hlead⟩
  · rw [hphase]
    dsimp only
    rw [← hphase]
  · rw [hphase, hlead, pieces]
    rfl

/-- The same token is sampled, or both fail alike. -/
theorem propose (h : Aligned front w u) (hw : w.phase = .decode)
    (hu : u.phase = .decode ∨ u.phase = .prefill ∧ u.input.lead = []) :
    w.propose.2 = u.propose.2 ∧ Aligned front w.propose.1 u.propose.1 := by
  unfold Session.propose
  rw [prefill_eq (Or.inl hw), prefill_eq hu]
  have hread : Aligned front ({ w with phase := .decode } : Session κ Random.Generator) { u with phase := .decode } :=
    { h with cache_eq := h.cache_eq }
  dsimp only
  obtain ⟨hscores, hscored⟩ := hread.scores
  generalize Session.scores { w with phase := .decode } = sw, Session.scores { u with phase := .decode } = su
    at hscores hscored ⊢
  obtain ⟨w', answer⟩ := sw
  obtain ⟨u', answer'⟩ := su
  dsimp only at hscores hscored ⊢
  subst hscores
  cases answer with
  | error e => exact ⟨rfl, hscored⟩
  | ok scores =>
    obtain ⟨answer, hsample, hsample'⟩ := hscored.sample_eq scores
    dsimp only
    rw [hsample, hsample']
    cases answer <;> exact ⟨rfl, hscored⟩

/-! ### The token -/

/-- The token comes behind those of both. -/
theorem tokens_take (h : Aligned front t t') (token : TokenId) (d d' : Detokenizer) :
    (t.take token d).tokens = front ++ (t'.take token d').tokens := by
  show t.tokens ++ [token] = front ++ (t'.tokens ++ [token])
  rw [h.tokens_eq, List.append_assoc]

theorem take (h : Aligned front t t') (hd : d.decoder = t.detokenizer.decoder)
    (hd' : d'.decoder = t'.detokenizer.decoder) (hreadable : d.Readable) (hreadable' : d'.Readable) :
    Aligned front (t.take token d) (t'.take token d') :=
  { h with
    alike := (h.alike.accept token).2
    decoder_eq := hd.trans (h.decoder_eq.trans hd'.symm)
    tokenwise := by
      show d'.decoder.FailsTokenwise
      rw [hd']
      exact h.tokenwise
    readable := hreadable
    readable' := hreadable'
    tokens_eq := h.tokens_take token d d' }

theorem finish?_eq (h : Aligned front w u) (token : TokenId) (v : Verdict) (disposition : Disposition) :
    w.finish? token v disposition = u.finish? token v disposition := by
  obtain ⟨more, -, hw, hu⟩ := h.budget
  have hfull : w.isFull = u.isFull := by
    rw [isFull_eq hw, isFull_eq hu, h.tokens_eq, List.length_append]
    exact decide_eq_decide.mpr (Nat.add_le_add_iff_left)
  unfold finish?
  rw [h.alike.lexicon_eq, hfull]

end Aligned

/-- The session `u` goes on where the session `w`, which has generated `front` before, stands now; or both have ended
alike. -/
inductive Continues (front : List TokenId) (w u : Session κ Random.Generator) : Prop
  | running : Aligned front w u → w.phase = .decode →
      u.phase = .decode ∨ u.phase = .prefill ∧ u.input.lead = [] → Continues front w u
  | ended : w.tokens = front ++ u.tokens → w.cache = u.cache → w.phase = u.phase → ¬ u.IsRunning →
      Continues front w u

namespace Continues

/-! ### One step -/

theorem of_aligned (h : Aligned front t t') {phase : Phase} (hphase : phase ≠ .prefill ∧ phase ≠ .decode) :
    Continues front { t with phase := phase } { t' with phase := phase } :=
  .ended h.tokens_eq h.cache_eq rfl fun hrunning => hrunning.elim hphase.1 hphase.2

/-- Both sessions add the token that they have sampled, or both fail. -/
theorem nextWith_of_offers (ho : w.Offers t token) (ho' : u.Offers t' token) (h : Aligned front t t') :
    Continues front (w.nextWith .silent ()).1 (u.nextWith .silent ()).1 ∧
      (w.nextWith .silent ()).2.2.map outcome = (u.nextWith .silent ()).2.2.map outcome := by
  have hverdict := (h.alike.accept token).1
  have htokenwise : t.detokenizer.decoder.FailsTokenwise := by
    rw [h.decoder_eq]
    exact h.tokenwise
  by_cases hv : (t.gate.matcher.accept token).2 = .rejected
  · rw [nextWith_of_rejected ho hv, nextWith_of_rejected ho' (hverdict.symm.trans hv)]
    exact ⟨of_aligned h ⟨nofun, nofun⟩, rfl⟩
  · have hv' : (t'.gate.matcher.accept token).2 ≠ .rejected := fun hrejected => hv (hverdict.trans hrejected)
    -- the decoder fails with the token on both sides or on none, whatever came before
    cases hid : t.detokenizer.decoder.decode [token] with
    | error e =>
      obtain ⟨d, hpush⟩ := Detokenizer.push_of_error h.readable htokenwise hid
      obtain ⟨d', hpush'⟩ := Detokenizer.push_of_error h.readable' h.tokenwise (h.decoder_eq ▸ hid)
      rw [nextWith_of_unreadable ho hv hpush, nextWith_of_unreadable ho' hv' hpush']
      exact ⟨.ended (h.tokens_take token d d') h.cache_eq rfl (not_isRunning_of_aborted rfl), rfl⟩
    | ok text =>
      obtain ⟨d, chunk, hpush, hd⟩ := Detokenizer.push_of_ok h.readable htokenwise hid
      obtain ⟨d', chunk', hpush', hd'⟩ := Detokenizer.push_of_ok h.readable' h.tokenwise (h.decoder_eq ▸ hid)
      have htaken : Aligned front (t.take token d) (t'.take token d') :=
        h.take (decoder_eq_of_push hpush) (decoder_eq_of_push hpush') hd hd'
      have hphase : (t.take token d).phase = .decode := (mask_propose ho.isRunning ho.propose_eq).2
      have hphase' : (t'.take token d').phase = .decode := (mask_propose ho'.isRunning ho'.propose_eq).2
      have hfinish := htaken.finish?_eq token (t'.gate.matcher.accept token).2 .proceed
      rw [nextWith_of_push ho hv hpush, nextWith_of_push ho' hv' hpush', hverdict]
      simp only [Observer.silent]
      -- both end here or neither does, as their budgets are used up at once
      cases hreason : (t'.take token d').finish? token (t'.gate.matcher.accept token).2 .proceed with
      | none =>
        rw [settle_of_none hreason, settle_of_none (hfinish.trans hreason)]
        exact ⟨.running htaken hphase (Or.inl hphase'), rfl⟩
      | some reason =>
        obtain ⟨f, rest, hflush⟩ := Detokenizer.flush_of_readable htaken.readable
        obtain ⟨f', rest', hflush'⟩ := Detokenizer.flush_of_readable htaken.readable'
        rw [settle_of_some hreason hflush', settle_of_some (hfinish.trans hreason) hflush]
        exact ⟨.ended (h.tokens_take token f f') h.cache_eq rfl (not_isRunning_of_finished rfl), rfl⟩

/-- Both sessions take a step, and the items tell the same but for the text. -/
theorem nextWith (h : Continues front w u) :
    Continues front (w.nextWith .silent ()).1 (u.nextWith .silent ()).1 ∧
      (w.nextWith .silent ()).2.2.map outcome = (u.nextWith .silent ()).2.2.map outcome := by
  -- where both have ended there is nothing to take
  cases h with
  | ended htokens hcache hphase hu =>
    have hw : ¬ w.IsRunning := fun hw => hu (by unfold IsRunning at hw ⊢; rwa [← hphase])
    rw [nextWith_of_not_isRunning hw, nextWith_of_not_isRunning hu]
    exact ⟨.ended htokens hcache hphase hu, rfl⟩
  | running h hw hu =>
    have hw' : w.IsRunning := Or.inr hw
    have hu' : u.IsRunning := hu.symm.imp And.left id
    obtain ⟨more, hmore, hwmost, humost⟩ := h.budget
    have hwmost' : w.params.maxTokens ≠ some 0 := by
      rw [hwmost]
      exact fun hzero => by injection hzero; omega
    have humost' : u.params.maxTokens ≠ some 0 := by
      rw [humost]
      exact fun hzero => by injection hzero; omega
    obtain ⟨hanswer, haligned⟩ := h.propose hw hu
    rcases hpropose : w.propose with ⟨t, answer⟩
    rcases hpropose' : u.propose with ⟨t', answer'⟩
    rw [hpropose, hpropose'] at hanswer haligned
    dsimp only at hanswer haligned
    subst hanswer
    cases answer with
    | error e =>
      rw [nextWith_of_failed hw' hwmost' hpropose, nextWith_of_failed hu' humost' hpropose']
      exact ⟨of_aligned haligned ⟨nofun, nofun⟩, rfl⟩
    | ok token =>
      have ho : w.Offers t token := ⟨hw', hwmost', hpropose⟩
      have ho' : u.Offers t' token := ⟨hu', humost', hpropose'⟩
      exact nextWith_of_offers ho ho' haligned

/-! ### Runs -/

/-- The two sessions run alike. -/
theorem run (h : Continues front w u) (limit : Nat) :
    Continues front (w.run .silent limit ()).session (u.run .silent limit ()).session ∧
      (w.run .silent limit ()).items.map outcome = (u.run .silent limit ()).items.map outcome ∧
      (w.run .silent limit ()).isOver = (u.run .silent limit ()).isOver := by
  induction limit generalizing w u with
  | zero => exact ⟨h, rfl, rfl⟩
  | succ limit ih =>
    obtain ⟨hnext, hitem⟩ := h.nextWith
    rw [Session.run, Session.run]
    generalize w.nextWith .silent () = next, u.nextWith .silent () = next' at hnext hitem ⊢
    obtain ⟨w', ⟨⟩, item⟩ := next
    obtain ⟨u', ⟨⟩, item'⟩ := next'
    dsimp only at hnext hitem ⊢
    cases item with
    | none =>
      rw [Option.map_none, eq_comm, Option.map_eq_none_iff] at hitem
      subst hitem
      exact ⟨hnext, rfl, rfl⟩
    | some item =>
      rw [Option.map_some, eq_comm, Option.map_eq_some_iff] at hitem
      obtain ⟨item', rfl, hitem⟩ := hitem
      obtain ⟨hsession, hitems, hover⟩ := ih hnext
      exact ⟨hsession, by rw [List.map_cons, List.map_cons, hitem, hitems], hover⟩

/-- Where the two stand, they tell the same. -/
theorem agree (h : Continues front w u) :
    w.tokens = front ++ u.tokens ∧ w.cache = u.cache ∧ w.stopReason? = u.stopReason? ∧ w.isAborted = u.isAborted := by
  cases h with
  | ended htokens hcache hphase _ =>
    unfold stopReason? isAborted
    rw [hphase]
    exact ⟨htokens, hcache, rfl, rfl⟩
  | running h hw hu =>
    refine ⟨h.tokens_eq, h.cache_eq, ?_⟩
    unfold stopReason? isAborted
    rw [hw]
    rcases hu with hu | ⟨hu, -⟩ <;> rw [hu] <;> exact ⟨rfl, rfl⟩

end Continues

variable {σ : Type}

/-- A session that may not generate anything has no tokens. -/
theorem tokens_run_of_zero {s : Session κ Random.Generator} (hs : s.tokens = []) (hmost : s.params.maxTokens = some 0)
    (hrunning : s.IsRunning) (limit : Nat) : (s.run .silent limit ()).session.tokens = [] := by
  cases limit with
  | zero => exact hs
  | succ limit =>
    rw [run, nextWith_full hrunning hmost]
    exact hs

section Seam

variable {l : Lexicon} {p params : GenerationParams} {s r : Session κ Random.Generator} {decoder : TextDecoder}
  {last : TokenId} {k limit more : Nat}

/-- The session of one token on a cache. -/
def ofLast (model : LanguageModel κ) (l : Lexicon) (decoder : TextDecoder) (params : GenerationParams)
    (last : TokenId) (cache : κ) : Session κ Random.Generator where
  model
  sampler := Sampling.sampler params.sampling
  params
  input := ⟨[], last⟩
  cache
  gate := .ofMatcher (.free l)
  chance := Sampling.generator params.sampling
  detokenizer := { decoder }

/-- The session of the last token goes on where the longer session stands. -/
theorem Outgrows.continues (h : Outgrows l p s r r.tokens d) (hs : s.IsGreedy)
    (hdecoder : s.detokenizer.decoder.FailsTokenwise) (hgreedy : params.sampling.isGreedy = true)
    (hlast : r.tokens.getLast? = some last) (hpos : 0 < more) (hp : p.maxTokens = some (r.tokens.length + more))
    (hmore : params.maxTokens = some more) :
    Continues r.tokens { r with params := p, phase := .decode, detokenizer := d }
      (ofLast s.model l s.detokenizer.decoder params last r.cache) := by
  refine .running ?_ rfl (Or.inr ⟨rfl, rfl⟩)
  obtain ⟨p', hp', hsampler⟩ := hs
  exact
    { model_eq := h.model_eq
      cache_eq := rfl
      greedy := ⟨p', hp', h.sampler_eq.trans hsampler⟩
      greedy' := ⟨_, hgreedy, rfl⟩
      alike := h.alike
      decoder_eq := h.decoder_eq
      tokenwise := hdecoder
      readable := h.readable
      readable' := Or.inl rfl
      tokens_eq := (List.append_nil _).symm
      last_eq := hlast
      budget := ⟨more, hpos, hp, hmore⟩ }

/-- A session that has ended with as many tokens as allowed has as many items, and a last token. -/
theorem Open.exists_last (h : s.Open l k) (htokens : s.tokens = []) (hr : (s.run .silent limit ()).session = r)
    (hend : r.phase = .finished .length) :
    r.tokens.length = k ∧ (s.run .silent k ()).session = r ∧ ∃ last, r.tokens.getLast? = some last := by
  obtain ⟨ids, d, hout, rfl⟩ :=
    h.outgrows (p := { s.params with maxTokens := some (k + 1) }) hr hend rfl rfl (Nat.lt_succ_self k)
  have hids : r.tokens = ids := by rw [hout.tokens_eq, htokens, List.nil_append]
  refine ⟨rfl, by rw [hids]; exact hout.run_eq, ?_⟩
  rw [← Option.isSome_iff_exists, List.getLast?_isSome]
  intro hnil
  have hlt := h.length_lt
  rw [hnil] at hlt
  exact Nat.not_lt_zero _ hlt

/-- Behind the tokens of the first session the longer one does what the session of the last token does. -/
theorem Open.run_continued (h : s.Open l k) (htokens : s.tokens = []) (hs : s.IsGreedy)
    (hr : (s.run .silent limit ()).session = r) (hend : r.phase = .finished .length)
    (hgreedy : params.sampling.isGreedy = true) (hlast : r.tokens.getLast? = some last) (hpos : 0 < more)
    (hstep : p.prefillStep = s.params.prefillStep) (hp : p.maxTokens = some (k + more))
    (hmore : params.maxTokens = some more) (n : Nat) :
    let a := (ofLast s.model l s.detokenizer.decoder params last r.cache).run .silent n ()
    let b := (s.withParams p).run .silent (k + n) ()
    Continues r.tokens b.session a.session ∧
      b.items.map outcome = r.tokens.map (fun id => .ok (id, none)) ++ a.items.map outcome ∧
      b.isOver = a.isOver := by
  obtain ⟨ids, d, hout, rfl⟩ := h.outgrows hr hend hstep hp (Nat.lt_add_of_pos_right hpos)
  obtain rfl : r.tokens = ids := by rw [hout.tokens_eq, htokens, List.nil_append]
  obtain ⟨items, hseam, hrun⟩ := hout.longer
  obtain ⟨hstand, hrest, hover⟩ := (hout.continues hs h.tokenwise hgreedy hlast hpos hp hmore).run n
  dsimp only
  rw [run_add, hrun]
  exact ⟨hstand, by rw [List.map_append, hseam, hrest], hover⟩

end Seam

/-- Let a session without a grammar, in which the best score wins and which no observer stops, end with as many
tokens as allowed. Then the session of its last token on the cache it leaves generates the tokens that a session over
the whole input would have generated from there, if it were allowed as many more. If that is at least one, their
items tell the same but for the text, so they end at the same token for the same reason or by the same failure, and
they leave the same cache. Of the decoder this takes that it fails by a token alone, as that of a lexicon and that of
a tokenizer do. -/
theorem run_of_continuation {model : LanguageModel κ} {l : Lexicon} {m : Matcher} {decoder : TextDecoder}
    (hm : Matcher.start l .free = .ok m) (hdecoder : decoder.FailsTokenwise) {params : GenerationParams}
    (hgreedy : params.sampling.isGreedy = true) {k : Nat} (hmost : params.maxTokens = some k) (hk : 1 ≤ k)
    {input : List TokenId} {fresh : Session κ Random.Generator}
    (hfresh : sampled model m decoder params input = .ok fresh) {observe : Observer σ}
    (hobserve : ∀ seen ids, (observe seen ids).2 = .proceed) {cache : κ} {limit : Nat} {seen : σ}
    {r : Session κ Random.Generator} (hr : ((fresh.withCache cache).run observe limit seen).session = r)
    (hend : r.stopReason? = some .length) {params' : GenerationParams} (hgreedy' : params'.sampling.isGreedy = true)
    {more : Nat} (hmore : params'.maxTokens = some more) :
    ∃ last rest whole, r.tokens.length = k ∧ r.tokens.getLast? = some last ∧
      sampled model m decoder params' [last] = .ok rest ∧
      sampled model m decoder { params with maxTokens := some (k + more) } input = .ok whole ∧
      ∀ (n : Nat) (seen' seen'' : σ) (a b : Run κ Random.Generator σ),
        (rest.withCache r.cache).run observe n seen' = a → (whole.withCache cache).run observe (k + n) seen'' = b →
        b.session.tokens = r.tokens ++ a.session.tokens ∧
          (1 ≤ more → b.items.map outcome = r.tokens.map (fun id => .ok (id, none)) ++ a.items.map outcome ∧
            b.isOver = a.isOver ∧ b.session.stopReason? = a.session.stopReason? ∧
            b.session.isAborted = a.session.isAborted ∧ b.session.cache = a.session.cache) := by
  obtain rfl := Matcher.eq_free_of_start hm
  obtain ⟨i, hi, hs⟩ := exists_input_of_start hfresh
  -- `s` is the session that the continuation goes on from; what is known of it is gathered first
  generalize hstart : fresh.withCache cache = s at hr
  have hparams : s.params = params := by
    rw [← hstart, hs]
    rfl
  have htokens : s.tokens = [] := by
    rw [← hstart, hs]
    rfl
  have hopen : s.Open l k := by
    rw [← hstart, hs]
    exact ⟨Or.inl rfl, hmost, hk, ⟨rfl, rfl, rfl⟩, hdecoder, Or.inl rfl⟩
  have hphase := phase_of_stopReason? hend
  rw [(run_of_proceed hobserve limit seen s).1] at hr
  obtain ⟨hlength, hseam, last, hlast⟩ := hopen.exists_last htokens hr hphase
  refine ⟨last, ofLast model l decoder params' last model.emptyCache,
    fresh.withParams { params with maxTokens := some (k + more) }, hlength, hlast, rfl, ?_, ?_⟩
  · rw [hs, sampled, start, hi]
    rfl
  intro n seen' seen'' a b ha hb
  have hrest : (ofLast model l decoder params' last model.emptyCache).withCache r.cache =
      ofLast s.model l s.detokenizer.decoder params' last r.cache := by
    rw [← hstart, hs]
    rfl
  have hwhole : (fresh.withParams { params with maxTokens := some (k + more) }).withCache cache =
      s.withParams { params with maxTokens := some (k + more) } := by
    rw [← hstart]
    rfl
  obtain ⟨hsession, hitems, hover⟩ := run_of_proceed hobserve n seen' (ofLast s.model l _ params' last r.cache)
  obtain ⟨hsession', hitems', hover'⟩ := run_of_proceed hobserve (k + n) seen''
    (s.withParams { params with maxTokens := some (k + more) })
  rw [← hrest, ha] at hsession hitems hover
  rw [← hwhole, hb] at hsession' hitems' hover'
  rw [hsession, hitems, hover, hsession', hitems', hover', hrest, hwhole]
  rcases Nat.eq_zero_or_pos more with rfl | hpos
  · refine ⟨?_, fun hone => absurd hone (by omega)⟩
    -- Nothing more is allowed, so the session over the whole input is the first one.
    have hsame : s.withParams { params with maxTokens := some (k + 0) } = s := by
      rw [Nat.add_zero, ← hmost, ← hparams]
      rfl
    rw [hsame, session_add, hseam, (run_of_not_isRunning (not_isRunning_of_finished hphase) n).1,
      tokens_run_of_zero rfl hmore (Or.inl rfl), List.append_nil]
  · obtain ⟨hstand, hboth, hisOver⟩ := hopen.run_continued htokens ⟨_, hgreedy, by rw [← hstart, hs]; rfl⟩ hr hphase
      hgreedy' hlast hpos (p := { params with maxTokens := some (k + more) }) (congrArg (·.prefillStep) hparams.symm)
      rfl hmore n
    obtain ⟨hbehind, hcache, hreason, haborted⟩ := hstand.agree
    exact ⟨hbehind, fun _ => ⟨hboth, hisOver, hreason, haborted, hcache⟩⟩

def alternating : LanguageModel (List TokenId) where
  emptyCache := []
  forward ids read :=
    let scores := match read.length with
      | 0 | 2 => [0, 1, 0, 0]
      | 1 | 3 => [1, 0, 0, 0]
      | _ => [0, 0, 0, 1]
    (read ++ ids, .ok (.ofSingles scores))

def alternatingSession : Session (List TokenId) Random.Generator :=
  ofLast alternating LogitGate.letters LogitGate.letters.decoder { sampling := .greedy, maxTokens := some 2 } 0 []

/-- The session stops behind `b` and `a`; that of `a` on its cache goes on up to the end, as the longer session
does. -/
theorem run_of_continuation_alternating :
    let tokens := (alternatingSession.run .silent 5 ()).session.tokens
    tokens = [1, 0] ∧ ∃ rest whole : Session (List TokenId) Random.Generator,
      sampled alternating (.free LogitGate.letters) LogitGate.letters.decoder
        { sampling := .greedy, maxTokens := some 4 } [0] = .ok rest ∧
      sampled alternating (.free LogitGate.letters) LogitGate.letters.decoder
        { sampling := .greedy, maxTokens := some 6 } [0] = .ok whole ∧
      ((rest.withCache [0, 1]).run .silent 4 ()).session.tokens = [1, 0, 3] ∧
      (whole.run .silent 6 ()).session.tokens = tokens ++ [1, 0, 3] ∧
      (whole.run .silent 6 ()).session.stopReason? = some .stopToken := by
  have hm : Matcher.start LogitGate.letters .free = .ok (.free LogitGate.letters) := rfl
  have hfresh : sampled alternating (.free LogitGate.letters) LogitGate.letters.decoder
      { sampling := .greedy, maxTokens := some 2 } [0] = .ok alternatingSession := rfl
  have hend : ((alternatingSession.withCache []).run .silent 5 ()).session.stopReason? = some .length := by
    decide +kernel
  have htokens : (alternatingSession.run .silent 5 ()).session.tokens = [1, 0] := by decide +kernel
  have hcache : (alternatingSession.run .silent 5 ()).session.cache = [0, 1] := by decide +kernel
  have hsilent : ∀ seen ids, ((.silent : Observer Unit) seen ids).2 = .proceed := fun _ _ => rfl
  have hmore : ({ sampling := .greedy, maxTokens := some 4 } : GenerationParams).maxTokens = some 4 := rfl
  obtain ⟨last, rest, whole, -, hlast, hrest, hwhole, hruns⟩ := run_of_continuation hm
    LogitGate.letters.failsTokenwise_decoder rfl rfl (by decide) hfresh hsilent rfl hend (by rfl) hmore
  have hcached : (alternatingSession.withCache []) = alternatingSession := rfl
  rw [hcached] at hlast hruns
  rw [htokens] at hlast
  obtain rfl := Option.some.inj hlast
  -- the general statement, for the four items that are left
  obtain ⟨hall, hbehind⟩ := hruns 4 () () _ _ rfl rfl
  obtain ⟨-, -, hreason, -⟩ := hbehind (by decide)
  have hgo : ((rest.withCache [0, 1]).run .silent 4 ()).session.tokens = [1, 0, 3] ∧
      ((rest.withCache [0, 1]).run .silent 4 ()).session.stopReason? = some .stopToken := by
    obtain rfl := Except.ok.inj hrest
    decide +kernel
  rw [hcache] at hall hreason
  rw [hgo.1] at hall
  have hwhole' : whole.withCache [] = whole := by
    obtain rfl := Except.ok.inj hwhole
    rfl
  rw [hwhole'] at hall hreason
  exact ⟨htokens, rest, whole, hrest, hwhole, hgo.1, hall, hreason.trans hgo.2⟩

end Session
end GuidedDecoding
