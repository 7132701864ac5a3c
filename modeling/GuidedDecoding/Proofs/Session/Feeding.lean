import GuidedDecoding.Proofs.Session.Calls
import GuidedDecoding.Proofs.Session.Prefill

/-!
# What a model is given to read

A session has its model read the input and then its own tokens, in order and each of them once. `Session.plan` is
everything that it is to read: the parts of the input, the last token of the input, and each generated token by
itself. The calls of a run are a beginning of the plan at every moment (`Session.Fed`), and while no failure has ended
the session only the last token is missing from them. `calls_of_run` puts this together.

A model that appends what it is given to its cache then has a cache of known length (`length_read`).
-/

namespace GuidedDecoding

/-! ### Parts of a list -/

/-- The list falls into these parts; they have the given size, but the last one may be shorter. None is empty. -/
structure CutInto {α : Type} (size : Nat) (l : List α) (parts : List (List α)) : Prop where
  flatten_eq : parts.flatten = l
  ne_nil : ∀ part ∈ parts, part ≠ []
  length_le : ∀ part ∈ parts, part.length ≤ size
  length_eq : ∀ part ∈ parts.dropLast, part.length = size

/-- The pieces of a list make it up, and only the last one may be short. -/
theorem cutInto_pieces {α : Type} (size : Nat) (l : List α) : CutInto (size + 1) l (Session.pieces size l) where
  flatten_eq := Session.flatten_pieces size l
  ne_nil := Session.ne_nil_of_mem_pieces
  length_le := by
    fun_induction Session.pieces size l with
    | case1 => simp
    | case2 a rest ih =>
      rw [List.forall_mem_cons]
      refine ⟨?_, ih⟩
      simp
  length_eq := by
    fun_induction Session.pieces size l with
    | case1 => simp
    | case2 a rest ih =>
      cases hback : Session.pieces size (rest.drop size) with
      | nil => simp
      | cons part parts =>
        -- Something is left behind the first part, so that one is full.
        have hleft : rest.drop size ≠ [] := by
          intro hnil
          rw [hnil, Session.pieces] at hback
          cases hback
        have hlong : size < rest.length := by simpa using hleft
        rw [hback] at ih
        rw [List.dropLast_cons_cons, List.forall_mem_cons]
        refine ⟨?_, ih⟩
        simp only [List.length_cons, List.length_take]
        omega

/-! ### Caches that grow -/

namespace LanguageModel

variable {κ : Type} {m : LanguageModel κ} {length : κ → Nat}

/-- Where the model does not fail, its cache is longer by what it has been given. -/
def Appends (m : LanguageModel κ) (length : κ → Nat) : Prop :=
  ∀ (ids : List TokenId) (cache after : κ) (output : Tensor),
    m.forward ids cache = (after, .ok output) → length after = length cache + ids.length

/-- What has been read makes the cache longer by as much. -/
theorem length_read (hm : m.Appends length) {calls : CallLog} {cache after : κ}
    (h : m.read calls cache = (after, .ok ())) : length after = length cache + calls.flatten.length := by
  induction calls generalizing cache with
  | nil =>
    cases h
    simp
  | cons ids calls ih =>
    rw [read] at h
    rcases hforward : m.forward ids cache with ⟨next, e | output⟩
    · rw [hforward] at h
      cases h
    · rw [hforward] at h
      rw [ih h, hm ids cache next output hforward, List.flatten_cons, List.length_append, Nat.add_assoc]

end LanguageModel

namespace Session

variable {κ ρ σ : Type} {s t : Session κ ρ} {token : TokenId} {d : Detokenizer} {log calls : CallLog} {start : κ}

/-! ### The plan -/

/-- Everything that the model is to read: the parts of the input, its last token, and each token of the session. -/
def plan (s : Session κ ρ) : CallLog :=
  pieces (s.params.prefillStep - 1) s.input.lead ++ [s.input.last] :: s.tokens.map fun id => [id]

theorem Keeps.plan_eq (h : Keeps s t) : t.plan = s.plan := by
  unfold plan
  rw [h.params_eq, h.input_eq, h.tokens_eq]

/-- A token is one more thing to read. -/
theorem plan_take (s : Session κ ρ) (token : TokenId) (d : Detokenizer) :
    (s.take token d).plan = s.plan ++ [[token]] := by
  simp [plan, take]

theorem plan_of_tokens_eq_nil (h : s.tokens = []) :
    s.plan = pieces (s.params.prefillStep - 1) s.input.lead ++ [[s.input.last]] := by
  simp [plan, h]

theorem dropLast_plan (h : s.tokens ≠ []) :
    s.plan.dropLast =
      pieces (s.params.prefillStep - 1) s.input.lead ++ [s.input.last] :: s.tokens.dropLast.map fun id => [id] := by
  have hmap : (s.tokens.map fun id => [id]) ≠ [] := by simpa using h
  rw [plan, List.dropLast_append_of_ne_nil (List.cons_ne_nil _ _), List.dropLast_cons_of_ne_nil hmap, List.map_dropLast]

/-- The token that comes next is the last of the plan. -/
theorem plan_eq_concat (h : s.tokens ≠ []) : s.plan = s.plan.dropLast ++ [[s.pending]] := by
  obtain ⟨front, last, htokens⟩ := (List.eq_nil_or_concat s.tokens).resolve_left h
  rw [dropLast_plan h]
  simp [plan, pending, htokens]

/-- Together the lists of a plan are the input and the tokens. -/
theorem flatten_planned (size : Nat) (i : Input) (ids : List TokenId) :
    (pieces size i.lead ++ [i.last] :: ids.map fun id => [id]).flatten = i.toList ++ ids := by
  have hsingletons : (ids.map fun id => [id]).flatten = ids := by
    rw [← List.flatMap_def, List.flatMap_singleton']
  rw [List.flatten_append, List.flatten_cons, flatten_pieces, hsingletons, Input.toList, List.append_assoc]

/-! ### What has been read -/

/-- The model has been called with `log`, which is a beginning of the plan. While no failure has ended the session
only the last generated token is missing, or everything if there is none, and the cache is what reading `log` has
made of `start`. -/
structure Fed (start : κ) (s : Session κ ρ) (log : CallLog) : Prop where
  begins : log <+: s.plan
  behind : s.tokens ≠ [] → s.plan.dropLast <+: log
  level : s.phase ≠ .aborted → log = if s.tokens = [] then [] else s.plan.dropLast
  prefill_iff : s.IsRunning → (s.phase = .prefill ↔ s.tokens = [])
  replay : s.phase ≠ .aborted → s.model.read log start = (s.cache, .ok ())

theorem IsRunning.ne_aborted (h : s.IsRunning) : s.phase ≠ .aborted := by
  rcases h with hphase | hphase <;> rw [hphase] <;> nofun

/-- With what is due the plan is complete. -/
theorem Fed.append_due (h : s.Fed start log) (hs : s.IsRunning) : log ++ s.due = s.plan := by
  have hlevel := h.level hs.ne_aborted
  have hprefill := h.prefill_iff hs
  unfold due unread
  rcases hs with hphase | hphase
  · have htokens := hprefill.mp hphase
    rw [if_pos htokens] at hlevel
    rw [hphase, hlevel, plan_of_tokens_eq_nil htokens, pending, htokens]
    rfl
  · have htokens : s.tokens ≠ [] := by
      intro hnil
      cases hphase.symm.trans (hprefill.mpr hnil)
    rw [if_neg htokens] at hlevel
    rw [hphase, hlevel]
    exact (plan_eq_concat htokens).symm

/-- A failure ends the session with some of what is due read. -/
theorem Fed.fail (h : s.Fed start log) (hs : s.IsRunning) (hkeeps : Keeps s t) (hcalls : calls <+: s.due) :
    Fed start { t with phase := .aborted } (log ++ calls) where
  begins := by
    show log ++ calls <+: t.plan
    rw [hkeeps.plan_eq, ← h.append_due hs]
    exact (List.prefix_append_right_inj log).mpr hcalls
  behind htokens := by
    show t.plan.dropLast <+: log ++ calls
    rw [hkeeps.plan_eq]
    have hsame : s.tokens ≠ [] := hkeeps.tokens_eq ▸ htokens
    exact (h.behind hsame).trans (List.prefix_append _ _)
  level haborted := absurd rfl haborted
  prefill_iff hrunning := absurd hrunning (not_isRunning_of_aborted rfl)
  replay haborted := absurd rfl haborted

/-- A token is taken behind everything that is due. -/
theorem Fed.take (h : s.Fed start log) (ho : s.Offers t token)
    (hread : s.model.read s.due s.cache = (t.cache, .ok ())) {phase : Phase} (hphase : phase ≠ .prefill) :
    Fed start { t.take token d with phase := phase } (log ++ s.due) := by
  have htokens : (t.take token d).tokens ≠ [] := by simp [Session.take]
  have hplan : (t.take token d).plan = (log ++ s.due) ++ [[token]] := by
    rw [plan_take, ho.keeps.plan_eq, h.append_due ho.isRunning]
  have hlevel : log ++ s.due = (t.take token d).plan.dropLast := by
    rw [hplan, List.dropLast_concat]
  exact
    { begins := by
        show log ++ s.due <+: (t.take token d).plan
        rw [hplan]
        exact List.prefix_append _ _
      behind := fun _ => hlevel ▸ List.prefix_rfl
      level := fun _ => by
        rw [if_neg htokens]
        exact hlevel
      prefill_iff := fun _ => iff_of_false hphase htokens
      replay := fun _ => by
        show t.model.read (log ++ s.due) start = (t.cache, .ok ())
        rw [ho.keeps.model_eq, LanguageModel.read_append, h.replay ho.isRunning.ne_aborted]
        exact hread }

/-- A step has its model read what is due, or nothing. -/
theorem Fed.nextWith (h : s.Fed start log) (observe : Observer σ) (seen : σ)
    (hidle : calls = [] ↔ ¬ s.IsRunning ∨ s.params.maxTokens = some 0)
    (hreads : s.IsRunning → s.params.maxTokens ≠ some 0 →
      s.model.Reads s.due calls s.cache s.propose.1.cache (∃ token, s.propose.2 = .ok token)) :
    Fed start (s.nextWith observe seen).1 (log ++ calls) := by
  have hmove := nextWith_move observe seen s
  generalize s.nextWith observe seen = next at hmove ⊢
  obtain ⟨next, seen', item⟩ := next
  -- a step that offers a token has read all that was due
  have hall {t : Session κ ρ} {token : TokenId} (ho : s.Offers t token) :
      calls = s.due ∧ s.model.read s.due s.cache = (t.cache, .ok ()) := by
    have hdue := hreads ho.isRunning ho.mayGenerate
    rw [ho.propose_eq] at hdue
    exact hdue.all ⟨token, rfl⟩
  dsimp only at hmove ⊢
  -- The moves differ in whether a token is taken, and in whether the session is left aborted.
  cases hmove with
  | ended hs =>
    rw [hidle.mpr (Or.inl hs), List.append_nil]
    exact h
  | full hs hmost =>
    rw [hidle.mpr (Or.inr hmost), List.append_nil]
    exact
      { begins := h.begins
        behind := h.behind
        level := fun _ => h.level hs.ne_aborted
        prefill_iff := fun hrunning => absurd hrunning (not_isRunning_of_finished rfl)
        replay := fun _ => h.replay hs.ne_aborted }
  | failed hs hmost hpropose => exact h.fail hs (keeps_of_propose hpropose) (hreads hs hmost).begins
  | refused ho => exact h.fail ho.isRunning ho.keeps (hreads ho.isRunning ho.mayGenerate).begins
  | unreadable ho =>
    obtain ⟨rfl, hread⟩ := hall ho
    exact h.take ho hread nofun
  | @generated t token d chunk ho =>
    obtain ⟨rfl, hread⟩ := hall ho
    have hphase : (t.take token d).phase ≠ .prefill := by
      show t.phase ≠ .prefill
      rw [(mask_propose ho.isRunning ho.propose_eq).2]
      nofun
    exact h.take ho hread hphase
  | unflushed ho =>
    obtain ⟨rfl, hread⟩ := hall ho
    exact h.take ho hread nofun
  | finished ho =>
    obtain ⟨rfl, hread⟩ := hall ho
    exact h.take ho hread nofun

/-! ### Whole runs -/

/-- A session that has not taken a step has been fed nothing. -/
theorem fed_of_fresh (hphase : s.phase = .prefill) (htokens : s.tokens = []) : s.Fed s.cache [] where
  begins := List.nil_prefix
  behind hne := absurd htokens hne
  level _ := (if_pos htokens).symm
  prefill_iff _ := iff_of_true hphase htokens
  replay _ := rfl

/-- What is fed along a run is fed as planned. -/
theorem Fed.run (h : s.Fed start []) (observe : Observer σ) (limit : Nat) (seen : σ) :
    Fed start (s.run observe limit seen).session (s.calls observe limit seen) := by
  induction limit with
  | zero => exact h
  | succ limit ih =>
    obtain ⟨calls, hcalls, hidle, hreads⟩ := s.exists_calls_succ observe limit seen rfl
    rw [hcalls, run_succ]
    have hnext := ih.nextWith observe (s.run observe limit seen).seen hidle hreads
    unfold Run.further
    generalize (s.run observe limit seen).session.nextWith observe (s.run observe limit seen).seen = next at hnext ⊢
    obtain ⟨next, seen', _ | item⟩ := next <;> exact hnext

/-- What has been called for when the next step has called its model, all or some of it, is a beginning of the input
and the tokens that there are before that step. -/
theorem Fed.flatten_prefix (h : s.Fed start log) (hidle : calls = [] ↔ ¬ s.IsRunning ∨ s.params.maxTokens = some 0)
    (hreads : s.IsRunning → s.params.maxTokens ≠ some 0 →
      s.model.Reads s.due calls s.cache s.propose.1.cache (∃ token, s.propose.2 = .ok token))
    {front : CallLog} (hfront : front <+: log ++ calls) : front.flatten <+: s.input.toList ++ s.tokens := by
  have hplan : log ++ calls <+: s.plan := by
    by_cases hstep : ¬ s.IsRunning ∨ s.params.maxTokens = some 0
    · rw [hidle.mpr hstep, List.append_nil]
      exact h.begins
    · rw [not_or, not_not] at hstep
      rw [← h.append_due hstep.1]
      exact (List.prefix_append_right_inj log).mpr (hreads hstep.1 hstep.2).begins
  have hflatten : s.plan.flatten = s.input.toList ++ s.tokens := flatten_planned _ _ _
  rw [← hflatten]
  exact (hfront.trans hplan).flatten

/-- No step changes what the session was started with. -/
theorem same_nextWith (observe : Observer σ) (seen : σ) (s : Session κ ρ) :
    (s.nextWith observe seen).1.model = s.model ∧ (s.nextWith observe seen).1.params = s.params ∧
      (s.nextWith observe seen).1.input = s.input := by
  have hmove := nextWith_move observe seen s
  generalize s.nextWith observe seen = next at hmove ⊢
  obtain ⟨next, seen', item⟩ := next
  dsimp only at hmove ⊢
  cases hmove with
  | ended => exact ⟨rfl, rfl, rfl⟩
  | full => exact ⟨rfl, rfl, rfl⟩
  | failed _ _ hpropose =>
    have hkeeps := keeps_of_propose hpropose
    exact ⟨hkeeps.model_eq, hkeeps.params_eq, hkeeps.input_eq⟩
  | refused ho => exact ⟨ho.keeps.model_eq, ho.keeps.params_eq, ho.keeps.input_eq⟩
  | unreadable ho => exact ⟨ho.keeps.model_eq, ho.keeps.params_eq, ho.keeps.input_eq⟩
  | generated ho => exact ⟨ho.keeps.model_eq, ho.keeps.params_eq, ho.keeps.input_eq⟩
  | unflushed ho => exact ⟨ho.keeps.model_eq, ho.keeps.params_eq, ho.keeps.input_eq⟩
  | finished ho => exact ⟨ho.keeps.model_eq, ho.keeps.params_eq, ho.keeps.input_eq⟩

/-- A run leaves the model, the parameters and the input as they are. -/
theorem same_run (observe : Observer σ) (limit : Nat) (seen : σ) (s : Session κ ρ) :
    (s.run observe limit seen).session.model = s.model ∧ (s.run observe limit seen).session.params = s.params ∧
      (s.run observe limit seen).session.input = s.input := by
  refine run_induction (P := fun t => t.model = s.model ∧ t.params = s.params ∧ t.input = s.input) ?_
    ⟨rfl, rfl, rfl⟩ limit seen
  intro t seen' ht
  obtain ⟨hmodel, hparams, hinput⟩ := same_nextWith observe seen' t
  exact ⟨hmodel.trans ht.1, hparams.trans ht.2.1, hinput.trans ht.2.2⟩

/-- The model is called with the parts of the input, then with its last token, and then with each generated token;
nothing is left out and nothing comes twice. Whatever calls have been made before the next token is there, together
they are a beginning of the input and the tokens so far. With the first token the input has been read, and when the
session ends for a reason only the last token has not. A model that appends what it is given has a cache that is
longer by just that. -/
theorem calls_of_run {model : LanguageModel κ} {gate : LogitGate} {sampler : Sampler ρ} {chance : ρ}
    {decoder : TextDecoder} {params : GenerationParams} {input : List TokenId} {fresh : Session κ ρ}
    (hfresh : Session.start model gate sampler chance decoder params input = .ok fresh) (cache : κ)
    (hs : fresh.withCache cache = s) (observe : Observer σ) (seen : σ) :
    ∃ lead last parts, input = lead ++ [last] ∧ CutInto (max params.prefillStep 1) lead parts ∧
      ∀ (limit : Nat) (r : Run κ ρ σ) (log : CallLog),
        s.run observe limit seen = r → s.calls observe limit seen = log →
        log <+: s.calls observe (limit + 1) seen ∧
          (∀ front, front <+: s.calls observe (limit + 1) seen → front.flatten <+: input ++ r.session.tokens) ∧
          log <+: parts ++ [last] :: r.session.tokens.map (fun id => [id]) ∧
          (r.session.tokens ≠ [] →
            parts ++ [last] :: r.session.tokens.dropLast.map (fun id => [id]) <+: log) ∧
          ∀ reason, r.session.phase = .finished reason → r.session.tokens ≠ [] →
            log = parts ++ [last] :: r.session.tokens.dropLast.map (fun id => [id]) ∧
              log.flatten = input ++ r.session.tokens.take (r.session.tokens.length - 1) ∧
              ∀ length : κ → Nat, model.Appends length →
                length r.session.cache = length cache + input.length + (r.session.tokens.length - 1) := by
  obtain ⟨i, hi, hfresh_eq⟩ := exists_input_of_start hfresh
  obtain rfl : i.toList = input := Input.toList_of_ofList? hi
  have hstart : s.model = model ∧ s.params = params ∧ s.input = i ∧ s.cache = cache ∧ s.phase = .prefill ∧
      s.tokens = [] := by
    rw [← hs, hfresh_eq]
    exact ⟨rfl, rfl, rfl, rfl, rfl, rfl⟩
  obtain ⟨hmodel, hparams, hinput, hcache, hphase, htokens⟩ := hstart
  have hsize : max params.prefillStep 1 = params.prefillStep - 1 + 1 := by omega
  refine ⟨i.lead, i.last, pieces (params.prefillStep - 1) i.lead, rfl, hsize ▸ cutInto_pieces _ _, ?_⟩
  rintro limit r log rfl rfl
  obtain ⟨hmodel', hparams', hinput'⟩ := same_run observe limit seen s
  rw [hmodel] at hmodel'
  rw [hparams] at hparams'
  rw [hinput] at hinput'
  -- the invariant at the end of the run; what is claimed is read off its fields
  have hfed := (fed_of_fresh hphase htokens).run observe limit seen
  rw [hcache] at hfed
  obtain ⟨calls, hcalls, hidle, hreads⟩ := s.exists_calls_succ observe limit seen rfl
  generalize s.run observe limit seen = r at *
  generalize s.calls observe limit seen = log at *
  refine ⟨hcalls ▸ List.prefix_append _ _, ?_, ?_, ?_, ?_⟩
  · intro front hfront
    rw [hcalls] at hfront
    rw [← hinput']
    exact hfed.flatten_prefix hidle hreads hfront
  · have hbegins := hfed.begins
    rw [plan, hparams', hinput'] at hbegins
    exact hbegins
  · intro hne
    have hbehind := hfed.behind hne
    rw [dropLast_plan hne, hparams', hinput'] at hbehind
    exact hbehind
  · intro reason hreason hne
    have haborted : r.session.phase ≠ .aborted := by rw [hreason]; nofun
    have hlog := hfed.level haborted
    rw [if_neg hne, dropLast_plan hne, hparams', hinput'] at hlog
    have hflatten : log.flatten = i.toList ++ r.session.tokens.take (r.session.tokens.length - 1) := by
      -- only with a reason has the cache been filled as planned: a failure may leave it anywhere
      rw [hlog, flatten_planned, List.dropLast_eq_take]
    refine ⟨hlog, hflatten, ?_⟩
    intro length happends
    have hlength := LanguageModel.length_read happends (hmodel' ▸ hfed.replay haborted)
    rw [hlength, hflatten, List.length_append, List.length_take, Nat.add_assoc]
    congr 2
    omega

/-- The model that keeps what it has read has read one token before the input, the five of the input, and all but the
last of three generated tokens. -/
theorem calls_of_run_transcript :
    transcript.Appends List.length ∧
      Session.start transcript (.ofMatcher LogitGate.abMatcher) scriptedSampler [0, 1, 3]
        LogitGate.letters.decoder { prefillStep := 3 } [0, 1, 0, 1, 2] = .ok transcriptSession ∧
      ∃ r, (transcriptSession.withCache [2]).run .silent 4 () = r ∧
        r.session.phase = .finished .stopToken ∧ r.session.tokens = [0, 1, 3] ∧
        ((transcriptSession.withCache [2]).calls .silent 4 ()).flatten = [0, 1, 0, 1, 2, 0, 1] ∧
        r.session.cache.length = 8 := by
  have happends : transcript.Appends List.length := by
    intro ids cache after output h
    cases h
    exact List.length_append
  have hfresh : Session.start transcript (.ofMatcher LogitGate.abMatcher) scriptedSampler [0, 1, 3]
      LogitGate.letters.decoder { prefillStep := 3 } [0, 1, 0, 1, 2] = .ok transcriptSession := rfl
  obtain ⟨lead, last, parts, -, -, hcalls⟩ := calls_of_run hfresh [2] rfl .silent ()
  obtain ⟨-, -, -, -, hended⟩ := hcalls 4 _ _ rfl rfl
  obtain ⟨hphase, htokens⟩ : ((transcriptSession.withCache [2]).run .silent 4 ()).session.phase =
      .finished .stopToken ∧ ((transcriptSession.withCache [2]).run .silent 4 ()).session.tokens = [0, 1, 3] := by cbv
  refine ⟨happends, hfresh, _, rfl, hphase, htokens, ?_⟩
  obtain ⟨-, hflatten, hlength⟩ := hended .stopToken hphase (by simp [htokens])
  rw [hflatten, hlength List.length happends, htokens]
  exact ⟨rfl, rfl⟩

end Session
end GuidedDecoding
