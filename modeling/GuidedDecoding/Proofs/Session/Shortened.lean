import GuidedDecoding.Proofs.Session.Budget

/-!
# Sessions that may generate less

A session that is allowed fewer tokens does what a session does that is allowed more, up to the token with which it
has as many as it is allowed. With that token it gives out the end of its text, where the other session may go on.
So its tokens are the first ones of the other session, and whatever else ends one of the two, a failure say, ends
both alike (`run_of_maxTokens`).

Each step is the same for both or the last one of the session that is allowed less (`Within.nextWith_or`), and so is
each run (`Within.run_or`); the runs that the number of tokens has cut short are related by `CutShort`.
-/

namespace GuidedDecoding.Session

variable {κ ρ σ : Type} {s t : Session κ ρ} {p : GenerationParams} {n limit : Nat} {token : TokenId} {v : Verdict}
  {observe : Observer σ} {seen : σ}

/-! ### Room for tokens -/

/-- The session may generate `n` tokens, and has room for one more while it is running. -/
structure Within (n : Nat) (s : Session κ ρ) : Prop where
  maxTokens_eq : s.params.maxTokens = some n
  length_le : s.tokens.length ≤ n
  room : s.IsRunning → s.tokens.length < n

/-- There is room for the token that a step adds. -/
theorem Within.length_take (h : s.Within n) (ho : s.Offers t token) : (t.tokens ++ [token]).length ≤ n := by
  have hroom := h.room ho.isRunning
  rw [ho.keeps.tokens_eq, List.length_append, List.length_singleton]
  exact hroom

/-- A step stays within the budget. -/
theorem Within.nextWith (h : s.Within n) (observe : Observer σ) (seen : σ) :
    (s.nextWith observe seen).1.Within n := by
  have hmove := nextWith_move observe seen s
  generalize s.nextWith observe seen = next at hmove ⊢
  obtain ⟨next, seen', item⟩ := next
  -- Behind an end there need be no room.
  have hend {u : Session κ ρ} (hparams : u.params = s.params) (hlength : u.tokens.length ≤ n)
      (hu : ¬ u.IsRunning) : u.Within n :=
    ⟨by rw [hparams]; exact h.maxTokens_eq, hlength, fun hrunning => absurd hrunning hu⟩
  have haborted {u : Session κ ρ} : ¬ ({ u with phase := .aborted } : Session κ ρ).IsRunning :=
    not_isRunning_of_aborted rfl
  dsimp only at hmove ⊢
  cases hmove with
  | ended => exact h
  | full => exact hend rfl h.length_le (not_isRunning_of_finished rfl)
  | @failed t e _ _ hpropose =>
    have hkeeps := keeps_of_propose hpropose
    have hlength : t.tokens.length ≤ n := by
      rw [hkeeps.tokens_eq]
      exact h.length_le
    exact hend hkeeps.params_eq hlength haborted
  | @refused t token ho =>
    have hlength : t.tokens.length ≤ n := by
      rw [ho.keeps.tokens_eq]
      exact h.length_le
    exact hend ho.keeps.params_eq hlength haborted
  | unreadable ho => exact hend ho.keeps.params_eq (h.length_take ho) haborted
  | @generated t token d chunk ho _ _ hfinish =>
    have hmost : (t.take token d).params.maxTokens = some n := by
      rw [← h.maxTokens_eq]
      exact congrArg (·.maxTokens) ho.keeps.params_eq
    have hfull := not_isFull_of_finish?_eq_none hfinish
    rw [isFull_eq hmost] at hfull
    exact ⟨hmost, h.length_take ho, fun _ => Nat.lt_of_not_le (of_decide_eq_false hfull)⟩
  | unflushed ho => exact hend ho.keeps.params_eq (h.length_take ho) haborted
  | finished ho => exact hend ho.keeps.params_eq (h.length_take ho) (not_isRunning_of_finished rfl)

theorem Within.run (h : s.Within n) (observe : Observer σ) (limit : Nat) (seen : σ) :
    (s.run observe limit seen).session.Within n :=
  run_induction (fun _ seen ht => ht.nextWith observe seen) h limit seen

/-- A run with room for `n` tokens takes no more than `n` steps. -/
theorem Within.isOver (h : s.Within n) (hlimit : n < limit + s.tokens.length) :
    (s.run observe limit seen).isOver = true := by
  induction limit generalizing s seen with
  | zero => exact absurd h.length_le (Nat.not_le.mpr (by omega))
  | succ limit ih =>
    have hnext := h.nextWith observe seen
    have htokens := tokens_nextWith observe seen s
    have hmove := nextWith_move observe seen s
    rw [Session.run]
    generalize s.nextWith observe seen = next at hnext htokens hmove ⊢
    obtain ⟨u, seen', _ | item⟩ := next
    · rfl
    · dsimp only at hnext htokens hmove ⊢
      rcases htokens with htokens | ⟨t, token, -, -, htokens⟩
      · -- An item without a token is a failure, and the run is over with the next step.
        have hrunning : s.IsRunning := by
          by_contra hs
          exact hmove.hasStepped (Or.inl hs)
        have haborted : ¬ u.IsRunning := by
          have hgrown {t : Session κ ρ} {token : TokenId} (ho : s.Offers t token) :
              t.tokens ++ [token] ≠ s.tokens := by
            rw [ho.keeps.tokens_eq]
            exact fun heq => absurd (congrArg List.length heq) (by simp)
          cases hmove with
          | failed => exact not_isRunning_of_aborted rfl
          | refused => exact not_isRunning_of_aborted rfl
          | unreadable => exact not_isRunning_of_aborted rfl
          | generated ho => exact absurd htokens (hgrown ho)
          | unflushed => exact not_isRunning_of_aborted rfl
          | finished => exact not_isRunning_of_finished rfl
        have hroom := h.room hrunning
        obtain ⟨rest, rfl⟩ : ∃ rest, limit = rest + 1 := ⟨limit - 1, by omega⟩
        rw [Session.run, nextWith_of_not_isRunning haborted]
      · refine ih hnext ?_
        rw [htokens, List.length_append, List.length_singleton]
        omega

/-- A run takes back no token. -/
theorem tokens_prefix_run (observe : Observer σ) (limit : Nat) (seen : σ) (s : Session κ ρ) :
    s.tokens <+: (s.run observe limit seen).session.tokens := by
  refine run_induction (P := fun t => s.tokens <+: t.tokens) ?_ List.prefix_rfl limit seen
  intro t seen ht
  rcases tokens_nextWith observe seen t with htokens | ⟨_, token, -, -, htokens⟩
  · rw [htokens]
    exact ht
  · rw [htokens]
    exact ht.trans (List.prefix_append _ _)

/-! ### One step -/

/-- A session that is allowed more has the same reason to end, where the number of tokens is none. -/
theorem finish?_withParams_or (hmost : s.params.maxTokens = some n) (hle : ∀ most ∈ p.maxTokens, n ≤ most)
    (token : TokenId) (v : Verdict) (d : Disposition) :
    (s.withParams p).finish? token v d = s.finish? token v d ∨ s.finish? token v d = some .length := by
  cases hfull : s.isFull with
  | false =>
    left
    have hfull' : (s.withParams p).isFull = false := by
      rw [isFull_eq hmost] at hfull
      have hroom := of_decide_eq_false hfull
      cases hp : p.maxTokens with
      | none =>
        unfold isFull withParams
        rw [hp]
        rfl
      | some most =>
        have hmore := hle most hp
        rw [isFull_eq (k := most) hp]
        exact decide_eq_false fun hmost => hroom (hmore.trans hmost)
    unfold finish?
    rw [hfull, hfull']
    rfl
  | true =>
    -- Only a stop token counts before the number of tokens, and it is one for both.
    cases hstop : s.gate.matcher.lexicon.isStop token with
    | false =>
      right
      unfold finish?
      rw [hstop, hfull]
      rfl
    | true =>
      left
      have hstop' : (s.withParams p).gate.matcher.lexicon.isStop token = true := hstop
      unfold finish?
      rw [hstop, hstop']
      rfl

/-- A step is the same in a session that is allowed more, or with its token the session has as many as it is
allowed. Then the other session has the token too, but perhaps not the end of the text. -/
theorem Within.nextWith_or (h : s.Within n) (hpos : 0 < n) (hstep : p.prefillStep = s.params.prefillStep)
    (hle : ∀ most ∈ p.maxTokens, n ≤ most) (observe : Observer σ) (seen : σ) :
    (s.withParams p).nextWith observe seen =
        ((s.nextWith observe seen).1.withParams p, (s.nextWith observe seen).2) ∨
      ∃ u u' seen' g g', s.nextWith observe seen = (u, seen', some (.ok g)) ∧
        (s.withParams p).nextWith observe seen = (u', seen', some (.ok g')) ∧
        u.phase = .finished .length ∧ u.tokens.length = n ∧ u'.tokens = u.tokens ∧
        g'.token = g.token ∧ g'.chunk.toList <+: g.chunk.toList := by
  have hread : s.ReadsAlike p := fun _ => by rw [hstep]
  have hzero : s.params.maxTokens ≠ some 0 := by
    rw [h.maxTokens_eq]
    exact fun hzero => absurd (Option.some.inj hzero) (by omega)
  have hzero' : p.maxTokens ≠ some 0 := fun hzero => absurd (hle 0 hzero) (by omega)
  -- Up to what a token is taken for, the steps are the same.
  rcases nextWith_withParams_or hread hzero hzero' observe seen with hsame | ⟨t, token, d, chunk, ho, hv, hpush⟩
  · exact Or.inl hsame
  have hmost : (t.take token d).params.maxTokens = some n := by
    rw [← h.maxTokens_eq]
    exact congrArg (·.maxTokens) ho.keeps.params_eq
  rcases finish?_withParams_or hmost hle token (t.gate.matcher.accept token).2
    (observe seen (t.tokens ++ [token])).2 with hsame | hlength
  · exact Or.inl (ho.nextWith_withParams hread hzero' hv hpush hsame)
  right
  -- What has just been decoded can be decoded again, so the end of the text does not fail.
  obtain ⟨f, rest, hflush⟩ := Detokenizer.flush_of_readable (Detokenizer.readable_of_push hpush)
  have hshort := nextWith_of_push ho hv hpush observe seen
  rw [settle_of_some hlength hflush] at hshort
  have hall : (t.tokens ++ [token]).length = n := by
    have hfull := (of_finish?_eq_length hlength).2
    rw [isFull_eq hmost] at hfull
    exact Nat.le_antisymm (h.length_take ho) (of_decide_eq_true hfull)
  have hlong := nextWith_of_push (ho.withParams hread hzero') hv hpush observe seen
  -- The longer session may end here too, for another reason; then it gives out the same text.
  cases hreason : ((t.withParams p).take token d).finish? token ((t.withParams p).gate.matcher.accept token).2
      (observe seen ((t.withParams p).tokens ++ [token])).2 with
  | none =>
    rw [settle_of_none hreason] at hlong
    refine ⟨_, _, _, _, _, hshort, hlong, rfl, hall, rfl, rfl, ?_⟩
    rw [String.toList_append]
    exact List.prefix_append _ _
  | some reason =>
    rw [settle_of_some hreason hflush] at hlong
    exact ⟨_, _, _, _, _, hshort, hlong, rfl, hall, rfl, rfl, List.prefix_rfl⟩

/-! ### Runs -/

/-- The run `r` has ended with the `n` tokens that it was allowed, and the run `r'` has come as far. They have the
same items up to the last one of `r`, which has the same token in both. -/
structure CutShort (n : Nat) (r r' : Run κ ρ σ) : Prop where
  phase_eq : r.session.phase = .finished .length
  length_eq : r.session.tokens.length = n
  tokens_prefix : r.session.tokens <+: r'.session.tokens
  items : ∃ front g g' more, r.items = front ++ [.ok g] ∧ r'.items = front ++ .ok g' :: more ∧
    g'.token = g.token ∧ g'.chunk.toList <+: g.chunk.toList

/-- An item in front that both runs have. -/
theorem CutShort.cons {r r' : Run κ ρ σ} (h : CutShort n r r') (item : Item) :
    CutShort n { r with items := item :: r.items } { r' with items := item :: r'.items } where
  phase_eq := h.phase_eq
  length_eq := h.length_eq
  tokens_prefix := h.tokens_prefix
  items := by
    obtain ⟨front, g, g', more, hitems, hitems', hlast⟩ := h.items
    exact ⟨item :: front, g, g', more, congrArg (item :: ·) hitems, congrArg (item :: ·) hitems', hlast⟩

/-- What a run that was cut short has generated is the beginning of what the other one has. -/
theorem CutShort.tokens_eq_take {r r' : Run κ ρ σ} (h : CutShort n r r') :
    r.session.tokens = r'.session.tokens.take n := by
  rw [← h.length_eq]
  exact List.prefix_iff_eq_take.mp h.tokens_prefix

/-- Before its last item a run that was cut short has the items of the other. -/
theorem CutShort.dropLast_prefix {r r' : Run κ ρ σ} (h : CutShort n r r') : r.items.dropLast <+: r'.items := by
  obtain ⟨front, g, g', more, hitems, hitems', -⟩ := h.items
  rw [hitems, hitems', List.dropLast_concat]
  exact List.prefix_append _ _

/-- Where a run that was cut short has its last item, the other has one with the same token. -/
theorem CutShort.exists_of_getLast? {r r' : Run κ ρ σ} (h : CutShort n r r') {last : Generated}
    (hlast : r.items.getLast? = some (.ok last)) :
    ∃ g', r'.items[r.items.length - 1]? = some (.ok g') ∧ g'.token = last.token ∧
      g'.chunk.toList <+: last.chunk.toList := by
  obtain ⟨front, g, g', more, hitems, hitems', htoken, hchunk⟩ := h.items
  rw [hitems, List.getLast?_concat, Option.some.injEq, Except.ok.injEq] at hlast
  subst hlast
  refine ⟨g', ?_, htoken, hchunk⟩
  rw [hitems, hitems', List.length_append, List.length_singleton, Nat.add_sub_cancel,
    List.getElem?_append_right (Nat.le_refl _), Nat.sub_self]
  rfl

/-- A run is the same in a session that is allowed more, or it has been cut short. -/
theorem Within.run_or (h : s.Within n) (hpos : 0 < n) (hstep : p.prefillStep = s.params.prefillStep)
    (hle : ∀ most ∈ p.maxTokens, n ≤ most) (observe : Observer σ) (limit : Nat) (seen : σ) :
    (s.withParams p).run observe limit seen =
        { s.run observe limit seen with session := (s.run observe limit seen).session.withParams p } ∨
      CutShort n (s.run observe limit seen) ((s.withParams p).run observe limit seen) := by
  -- a step that is the same for both is followed by runs that are, or that are cut short
  induction limit generalizing s seen with
  | zero => exact Or.inl rfl
  | succ limit ih =>
    rw [Session.run, Session.run]
    rcases h.nextWith_or hpos hstep hle observe seen with
      hsame | ⟨u, u', seen', g, g', hshort, hlong, hphase, hlength, htokens, htoken, hchunk⟩
    · have hnext := h.nextWith observe seen
      obtain ⟨hparams, -⟩ := params_nextWith observe seen s
      rw [hsame]
      generalize s.nextWith observe seen = next at hnext hparams ⊢
      obtain ⟨t, seen', _ | item⟩ := next
      · exact Or.inl rfl
      · dsimp only at hnext hparams ⊢
        rcases ih hnext (by rw [hparams]; exact hstep) seen' with hrun | hcut
        · exact Or.inl (by rw [hrun])
        · exact Or.inr (hcut.cons item)
    · right
      rw [hshort, hlong]
      dsimp only
      obtain ⟨hsession, hitems⟩ : (u.run observe limit seen').session = u ∧ (u.run observe limit seen').items = [] :=
        run_of_not_isRunning (not_isRunning_of_finished hphase) limit
      exact
        { phase_eq := by rw [hsession]; exact hphase
          length_eq := by rw [hsession]; exact hlength
          tokens_prefix := by
            rw [hsession, ← htokens]
            exact tokens_prefix_run observe limit seen' u'
          items := ⟨[], g, g', _, by rw [hitems]; rfl, rfl, htoken, hchunk⟩ }

/-- Of two sessions of one and the same start that differ only in the number of tokens that they are allowed, that
with `n` generates the first `n` tokens of the other, which may be allowed any number that is not less, or may not
be bounded at all. The items of the two are the same up to the last one that the first session has, which has the
same token in both and in the first session, it may be, more of the text. If the first session fails, then the other
fails in the same way behind the same tokens; and where the number of tokens is not what ends it, the two do the
same all along. -/
theorem run_of_maxTokens {model : LanguageModel κ} {gate : LogitGate} {sampler : Sampler ρ} {chance : ρ}
    {decoder : TextDecoder} {params : GenerationParams} {input : List TokenId} {n : Nat} {most : Option Nat}
    (hle : ∀ m ∈ most, n ≤ m) {short : Session κ ρ}
    (hshort : start model gate sampler chance decoder { params with maxTokens := some n } input = .ok short) :
    ∃ long, start model gate sampler chance decoder { params with maxTokens := most } input = .ok long ∧
      ∀ (cache : κ) (observe : Observer σ) (limit : Nat) (seen : σ) (r r' : Run κ ρ σ),
        (short.withCache cache).run observe limit seen = r →
        (long.withCache cache).run observe limit seen = r' →
          r.session.tokens = r'.session.tokens.take n ∧ (n < limit → r.isOver = true) ∧
          r.items.dropLast <+: r'.items ∧
          (∀ g, r.items.getLast? = some (.ok g) → ∃ g', r'.items[r.items.length - 1]? = some (.ok g') ∧
            g'.token = g.token ∧ g'.chunk.toList <+: g.chunk.toList) ∧
          (∀ e, .error e ∈ r.items → r'.items = r.items ∧ r'.session.tokens = r.session.tokens) ∧
          (r.session.stopReason? ≠ some .length → r'.items = r.items ∧ r'.isOver = r.isOver ∧ r'.seen = r.seen ∧
            r'.session = r.session.withParams { params with maxTokens := most }) := by
  obtain ⟨i, hi, hs⟩ := exists_input_of_start hshort
  refine ⟨short.withParams { params with maxTokens := most }, by rw [hs, start, hi]; rfl, ?_⟩
  rintro cache observe limit seen r r' rfl rfl
  have hlong : (short.withParams { params with maxTokens := most }).withCache cache =
      (short.withCache cache).withParams { params with maxTokens := most } := rfl
  have hfresh : (short.withCache cache).tokens = [] ∧ (short.withCache cache).IsRunning ∧
      (short.withCache cache).params = { params with maxTokens := some n } := by
    rw [hs]
    exact ⟨rfl, Or.inl rfl, rfl⟩
  rw [hlong]
  generalize short.withCache cache = s at hfresh ⊢
  obtain ⟨htokens, hrunning, hparams⟩ := hfresh
  have hmost : s.params.maxTokens = some n := by rw [hparams]
  have hstep : params.prefillStep = s.params.prefillStep := by rw [hparams]
  rcases Nat.eq_zero_or_pos n with rfl | hpos
  · -- The first session ends before it has done anything.
    cases limit with
    | zero =>
      refine ⟨htokens, fun hlt => absurd hlt (Nat.lt_irrefl 0), List.nil_prefix, ?_, ?_, fun _ => ⟨rfl, rfl, rfl, rfl⟩⟩
      · intro g hg
        cases hg
      · intro e he
        cases he
    | succ limit =>
      rw [run, nextWith_full hrunning hmost]
      refine ⟨htokens, fun _ => rfl, List.nil_prefix, ?_, ?_, fun hlength => absurd rfl hlength⟩
      · intro g hg
        cases hg
      · intro e he
        cases he
  have hwithin : s.Within n :=
    ⟨hmost, by rw [htokens]; exact Nat.zero_le n, fun _ => by rw [htokens]; exact hpos⟩
  have hover : n < limit → (s.run observe limit seen).isOver = true := fun hlimit =>
    hwithin.isOver (by omega)
  have hlength := (hwithin.run observe limit seen).length_le
  have haborted {e : Failure} : .error e ∈ (s.run observe limit seen).items →
      (s.run observe limit seen).session.phase = .aborted := phase_of_error_mem_items
  have hor := hwithin.run_or (p := { params with maxTokens := most }) hpos hstep hle observe limit seen
  generalize s.run observe limit seen = r at hover hlength haborted hor ⊢
  rcases hor with hsame | hcut
  · rw [hsame]
    refine ⟨(List.take_of_length_le hlength).symm, hover, List.dropLast_prefix _, ?_, fun e _ => ⟨rfl, rfl⟩,
      fun _ => ⟨rfl, rfl, rfl, rfl⟩⟩
    intro g hg
    rw [List.getLast?_eq_getElem?] at hg
    exact ⟨g, hg, rfl, List.prefix_rfl⟩
  · refine ⟨hcut.tokens_eq_take, hover, hcut.dropLast_prefix, fun _ => hcut.exists_of_getLast?, ?_, ?_⟩
    · -- A failure would have aborted the session instead.
      intro e he
      cases hcut.phase_eq.symm.trans (haborted he)
    · intro hreason
      refine absurd ?_ hreason
      rw [stopReason?, hcut.phase_eq]

/-- Of `a`, `b` and the end the session that may generate two tokens gives the first two, and then no more. -/
theorem run_of_maxTokens_ab :
    ∃ short long : Session Unit (List TokenId),
      start flatModel (.ofMatcher LogitGate.abMatcher) scriptedSampler [0, 1, 3] LogitGate.letters.decoder
        { maxTokens := some 2 } [0] = .ok short ∧
      start flatModel (.ofMatcher LogitGate.abMatcher) scriptedSampler [0, 1, 3] LogitGate.letters.decoder
        { maxTokens := none } [0] = .ok long ∧
      ((short.withCache ()).run .silent 5 ()).session.tokens = [0, 1] ∧
      ((short.withCache ()).run .silent 5 ()).isOver = true ∧
      ((long.withCache ()).run .silent 5 ()).session.tokens = [0, 1, 3] := by
  have hle : ∀ m ∈ (none : Option Nat), 2 ≤ m := nofun
  let params : GenerationParams := {}
  have hshort : start flatModel (.ofMatcher LogitGate.abMatcher) scriptedSampler [0, 1, 3]
      LogitGate.letters.decoder { params with maxTokens := some 2 } [0] =
      .ok { abSession with params := { maxTokens := some 2 } } := rfl
  obtain ⟨long, hlong, hrun⟩ := run_of_maxTokens (σ := Unit) hle hshort
  obtain ⟨htokens, hover, -⟩ := hrun () .silent 5 () _ _ rfl rfl
  have hall : ((long.withCache ()).run .silent 5 ()).session.tokens = [0, 1, 3] := by
    obtain rfl := Except.ok.inj hlong
    cbv
  rw [hall] at htokens
  exact ⟨_, long, hshort, hlong, htokens, hover (by decide), hall⟩

end GuidedDecoding.Session
