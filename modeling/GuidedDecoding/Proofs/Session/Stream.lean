import GuidedDecoding.Proofs.Session.Items

/-!
# Streaming and collecting

Items can be taken one by one, through a stream of any capacity, or all at once, by whoever takes over a session
after some steps: all of them see one and the same generation (`stream_agrees`). A stream gives the items of the
session one by one (`ItemStream.take_ofSession`), because what waits in it are the items that the session has
been ahead with.
-/

namespace GuidedDecoding

namespace Session

variable {κ ρ σ τ : Type} {observe : Observer σ} {seen : σ} {s : Session κ ρ} {l : Lexicon}
  {table : Array Bytes} {bytes : TokenId → Bytes}

/-! ### Observers that never stop -/

/-- Of an observer only what it wants matters for a step. -/
theorem nextWith_congr {observe' : Observer τ} {seen' : τ}
    (h : ∀ ids, (observe seen ids).2 = (observe' seen' ids).2) (s : Session κ ρ) :
    (s.nextWith observe seen).1 = (s.nextWith observe' seen').1 ∧
      (s.nextWith observe seen).2.2 = (s.nextWith observe' seen').2.2 := by
  by_cases hs : s.IsRunning
  · by_cases hmost : s.params.maxTokens = some 0
    · rw [nextWith_full hs hmost, nextWith_full hs hmost]
      exact ⟨rfl, rfl⟩
    · rw [nextWith_of_isRunning hs hmost, nextWith_of_isRunning hs hmost]
      rcases s.advance with ⟨t, e | ⟨token, verdict, chunk⟩⟩
      · exact ⟨rfl, rfl⟩
      · dsimp only
        rw [h]
        rcases t.settle token verdict chunk (observe' seen' t.tokens).2 with ⟨u, e | g⟩ <;> exact ⟨rfl, rfl⟩
  · rw [nextWith_of_not_isRunning hs, nextWith_of_not_isRunning hs]
    exact ⟨rfl, rfl⟩

/-- With an observer that never stops a session runs as without one. -/
theorem run_of_proceed (hobserve : ∀ seen ids, (observe seen ids).2 = .proceed) (limit : Nat) (seen : σ)
    (s : Session κ ρ) :
    (s.run observe limit seen).session = (s.run .silent limit ()).session ∧
      (s.run observe limit seen).items = s.items limit ∧
      (s.run observe limit seen).isOver = (s.run .silent limit ()).isOver := by
  induction limit generalizing s seen with
  | zero => exact ⟨rfl, rfl, rfl⟩
  | succ limit ih =>
    have hsilent : ∀ ids, (observe seen ids).2 = (Observer.silent () ids).2 := hobserve seen
    obtain ⟨hsession, hitem⟩ := nextWith_congr hsilent s
    unfold items
    rw [run, run]
    generalize s.nextWith observe seen = next, s.nextWith .silent () = next' at hsession hitem ⊢
    obtain ⟨t, seen', item⟩ := next
    obtain ⟨t', ⟨⟩, item'⟩ := next'
    dsimp only at hsession hitem ⊢
    subst hsession hitem
    cases item with
    | none => exact ⟨rfl, rfl, rfl⟩
    | some item =>
      obtain ⟨hsession, hitems, hover⟩ := ih seen' t
      exact ⟨hsession, congrArg (item :: ·) hitems, hover⟩

/-! ### Items one by one -/

/-- The items of a longer run are those of the run so far, and those of the session behind it. -/
theorem items_add (s : Session κ ρ) (limit more : Nat) :
    s.items (limit + more) = s.items limit ++ (s.run .silent limit ()).session.items more := by
  unfold items
  rw [run_add]

/-- The session behind them is that behind both. -/
theorem session_add (s : Session κ ρ) (limit more : Nat) :
    (s.run .silent (limit + more) ()).session =
      ((s.run .silent limit ()).session.run .silent more ()).session := by
  rw [run_add]

/-- Fewer items are the first ones of more. -/
theorem take_items {limit all : Nat} (h : limit ≤ all) (s : Session κ ρ) :
    (s.items all).take limit = s.items limit := by
  induction limit generalizing s all with
  | zero => rfl
  | succ limit ih =>
    obtain ⟨all, rfl⟩ : ∃ n, all = n + 1 := ⟨all - 1, by omega⟩
    unfold items
    rw [run, run]
    rcases s.nextWith .silent () with ⟨t, seen', _ | item⟩
    · rfl
    · exact congrArg (item :: ·) (ih (by omega) t)

/-- Where there is no first item there is none. -/
theorem items_eq_nil {limit : Nat} (h : s.items (limit + 1) = []) (limit' : Nat) : s.items limit' = [] := by
  unfold items at h ⊢
  cases limit' with
  | zero => rfl
  | succ limit' =>
    rw [run] at h ⊢
    generalize s.nextWith .silent () = next at h ⊢
    obtain ⟨t, seen', _ | item⟩ := next
    · rfl
    · cases h

/-- A session that has ended has no items. -/
theorem items_of_not_isRunning (hs : ¬ s.IsRunning) (limit : Nat) : s.items limit = [] :=
  (run_of_not_isRunning hs limit).2

/-- Behind its end a session has no further items. -/
theorem items_behind {limit all : Nat} (hs : ¬ (s.run .silent limit ()).session.IsRunning)
    (h : limit ≤ all) : s.items all = s.items limit := by
  obtain ⟨more, rfl⟩ := Nat.exists_eq_add_of_le h
  rw [items_add, items_of_not_isRunning hs, List.append_nil]

/-- The first item and those behind it. -/
theorem items_of_next {t : Session κ ρ} {item : Item} (h : s.next = (t, some item)) (limit : Nat) :
    s.items (limit + 1) = item :: t.items limit ∧
      (s.run .silent (limit + 1) ()).session = (t.run .silent limit ()).session := by
  unfold next at h
  unfold items
  rw [run]
  generalize s.nextWith .silent () = next at h ⊢
  obtain ⟨t', seen', item'⟩ := next
  cases h
  exact ⟨rfl, rfl⟩

/-- Without a first item the session has ended. -/
theorem items_of_next_eq_none {t : Session κ ρ} (h : s.next = (t, none)) :
    s.items 1 = [] ∧ (s.run .silent 1 ()).session = t ∧ ¬ t.IsRunning := by
  have hmove := nextWith_move .silent () s
  unfold next at h
  unfold items
  rw [run]
  generalize s.nextWith .silent () = next at h hmove ⊢
  obtain ⟨t', seen', item'⟩ := next
  cases h
  exact ⟨rfl, rfl, hmove.not_isRunning_of_none⟩

end Session

/-! ### Streams -/

namespace ItemStream

variable {κ ρ : Type} {t : ItemStream κ ρ}

/-- Where the session of a stream is said to have ended, it has. -/
def Honest (t : ItemStream κ ρ) : Prop := t.isFinished = true → ¬ t.session.IsRunning

/-- Producing adds the next items of the session, as many as there is room for unless it ends. -/
theorem produce_spec (ht : t.Honest) (room : Nat) :
    ∃ n, (t.produce room).waiting = t.waiting ++ t.session.items n ∧
      (t.produce room).session = (t.session.run .silent n ()).session ∧
      (t.produce room).Honest ∧ (n = room ∨ (t.produce room).isFinished = true) := by
  -- one more place in the stream is one more step of the session, unless it has ended
  induction room generalizing t with
  | zero => exact ⟨0, (List.append_nil _).symm, rfl, ht, Or.inl rfl⟩
  | succ room ih =>
    unfold produce
    by_cases hfinished : t.isFinished = true
    · rw [if_pos hfinished]
      exact ⟨0, (List.append_nil _).symm, rfl, ht, Or.inr hfinished⟩
    · rw [if_neg hfinished]
      rcases hnext : t.session.next with ⟨session, _ | item⟩
      · obtain ⟨hitems, hsession, hended⟩ := Session.items_of_next_eq_none hnext
        refine ⟨1, ?_, hsession.symm, fun _ => hended, Or.inr rfl⟩
        rw [hitems, List.append_nil]
      · have hitems := Session.items_of_next hnext
        obtain ⟨n, hwaiting, hsession, hhonest, hroom⟩ :=
          ih (t := { t with session, waiting := t.waiting ++ [item] }) (fun h => absurd h hfinished)
        refine ⟨n + 1, ?_, ?_, hhonest, hroom.imp_left (congrArg (· + 1))⟩
        · rw [(hitems n).1]
          exact hwaiting.trans (List.append_assoc _ _ _)
        · rw [(hitems n).2]
          exact hsession

/-- What is read from a stream is what waits, and then the items of its session. -/
theorem take_eq (ht : t.Honest) (limit : Nat) :
    (t.take limit).2 = (t.waiting ++ t.session.items limit).take limit := by
  induction limit generalizing t with
  | zero => rfl
  | succ limit ih =>
    obtain ⟨n, hwaiting, hsession, hhonest, hroom⟩ := produce_spec ht (t.capacity - t.waiting.length)
    unfold take next
    generalize t.produce (t.capacity - t.waiting.length) = t' at hwaiting hsession hhonest hroom ⊢
    dsimp only
    cases hlist : t'.waiting with
    | nil =>
      rw [hlist] at hwaiting
      obtain ⟨hnone, hitems⟩ := List.append_eq_nil_iff.mp hwaiting.symm
      have hnil : t.session.items (limit + 1) = [] := by
        rcases hroom with hroom | hfinished
        · -- There was room for an item, and none has come.
          rw [hnone] at hroom
          obtain ⟨room, hcapacity⟩ := Nat.exists_eq_add_of_lt t.capacity_pos
          rw [hroom, hcapacity, Nat.zero_add, List.length_nil, Nat.sub_zero] at hitems
          exact Session.items_eq_nil hitems _
        · have hended := hhonest hfinished
          rw [hsession] at hended
          rcases Nat.le_total n (limit + 1) with hle | hle
          · rw [Session.items_behind hended hle, hitems]
          · rw [← Session.take_items hle, hitems, List.take_nil]
      rw [hnone, hnil]
      rfl
    | cons item rest =>
      rw [hlist] at hwaiting
      have hrest := ih (t := { t' with waiting := rest }) hhonest
      have hn : limit + 1 - t.waiting.length ≤ n + limit := by
        rcases Nat.eq_zero_or_pos n with rfl | hpos
        · -- Nothing was produced, so something was waiting.
          cases hold : t.waiting with
          | nil =>
            rw [hold] at hwaiting
            cases hwaiting
          | cons => rw [List.length_cons]; omega
        · omega
      dsimp only
      rw [hrest, ← List.take_succ_cons, ← List.cons_append, hwaiting, hsession, List.append_assoc,
        ← Session.items_add, List.take_append, List.take_append, Session.take_items hn,
        Session.take_items (Nat.sub_le _ _)]

/-- A stream gives the items of its session, whatever its capacity. -/
theorem take_ofSession (s : Session κ ρ) (capacity limit : Nat) :
    ((ofSession s capacity).take limit).2 = s.items limit := by
  rw [take_eq (t := ofSession s capacity) nofun]
  exact Session.take_items (Nat.le_refl _) s

end ItemStream

namespace Session

variable {κ ρ σ : Type} {observe : Observer σ} {seen : σ} {s : Session κ ρ} {l : Lexicon}
  {table : Array Bytes} {bytes : TokenId → Bytes}

/-! ### Collecting -/

def tokensOf (items : List Item) : List TokenId :=
  items.filterMap fun item => match item with
    | .ok g => some g.token
    | .error _ => none

/-- The tokens of items without a failure are those of all of them. -/
theorem tokensOf_map_ok (gs : List Generated) : tokensOf (gs.map .ok) = gs.map (·.token) := by
  simp [tokensOf, List.filterMap_map]

/-- The items have the tokens of the session. -/
theorem Accounts.tokensOf_items {r : Run κ ρ σ} {gs : List Generated}
    (h : Accounts bytes observe seen s r gs) : tokensOf r.items = r.session.tokens := by
  rw [h.tokens_eq, ← tokensOf_map_ok]
  rcases h.items_eq with ⟨hitems, -⟩ | ⟨e, hitems, -⟩
  · rw [hitems]
  · rw [hitems, tokensOf, List.filterMap_append]
    exact List.append_nil _

/-- The failure among some items. -/
theorem mem_of_findSome? {items : List Item} {e : Failure}
    (h : (items.findSome? fun item => match item with
      | .error e => some e
      | .ok _ => none) = some e) : .error e ∈ items := by
  obtain ⟨item, hitem, heq⟩ := List.exists_of_findSome?_eq_some h
  cases item with
  | error e' =>
    cases heq
    exact hitem
  | ok g => cases heq

/-- What collecting gives: the failure among the items, or else the completion once there is no further
item. -/
theorem result_collect? (observe : Observer σ) (limit : Nat) (seen : σ) (s : Session κ ρ)
    (result : Except Failure Completion) (h : (s.collect? observe limit seen).result = some result) :
    (∃ e, result = .error e ∧ .error e ∈ (s.run observe limit seen).items) ∨
      (∀ e, .error e ∉ (s.run observe limit seen).items) ∧ (s.run observe limit seen).isOver = true ∧
        result = (s.run observe limit seen).session.completion := by
  unfold collect? at h
  dsimp only at h
  split at h
  · next e hfailure =>
    cases h
    exact Or.inl ⟨e, rfl, mem_of_findSome? hfailure⟩
  · next hnone =>
    split at h
    · next hover =>
      cases h
      refine Or.inr ⟨?_, hover, rfl⟩
      intro e he
      have := List.findSome?_eq_none_iff.mp hnone _ he
      cases this
    · cases h

/-- Once the session has ended collecting has a result. -/
theorem result_collect?_ne_none {limit : Nat} (hs : ¬ (s.run observe limit seen).session.IsRunning) :
    (s.collect? observe (limit + 1) seen).result ≠ none := by
  unfold collect?
  rw [run_succ_of_not_isRunning hs]
  dsimp only
  split
  · exact nofun
  · rw [if_pos rfl]
    exact nofun

/-- The completion of a session whose run is accounted for: only without a reason to end there is none. -/
theorem Accounts.completion_eq {r : Run κ ρ σ} {gs : List Generated}
    (h : Accounts bytes observe seen s r gs) :
    r.session.completion =
      match r.session.stopReason? with
      | none => .error (.model .endedWithoutReason)
      | some reason => .ok
          { text := String.ofList (Detokenizer.textOf bytes r.session.tokens)
            tokens := r.session.tokens
            promptCount := r.session.input.toList.length
            generatedCount := r.session.tokens.length
            stopReason := reason } := by
  unfold completion Session.text
  rw [h.decoder_eq]
  cases r.session.stopReason? <;> rfl

/-- A completion tells what the items tell one by one. -/
theorem Accounts.of_completion {r : Run κ ρ σ} {gs : List Generated} {done : Completion}
    (h : Accounts bytes observe seen s r gs) (hdone : r.session.completion = .ok done) :
    r.items = gs.map .ok ∧ gs.map (·.token) = done.tokens ∧
      gs.flatMap (·.chunk.toList) = done.text.toList ∧
      ∀ g ∈ gs.getLast?, g.finish = some done.stopReason := by
  rw [h.completion_eq] at hdone
  cases hreason : r.session.stopReason? with
  | none =>
    rw [hreason] at hdone
    cases hdone
  | some reason =>
    rw [hreason] at hdone
    cases hdone
    have hphase := phase_of_stopReason? hreason
    refine ⟨?_, h.tokens_eq.symm, ?_, fun g hg => (h.last g hg).trans hreason⟩
    · rcases h.items_eq with ⟨hitems, -⟩ | ⟨_, -, haborted⟩
      · exact hitems
      · cases hphase.symm.trans haborted
    · rw [String.toList_ofList]
      exact h.text reason hphase

/-- A failure among the items is the last one. -/
theorem Accounts.items_of_error_mem {r : Run κ ρ σ} {gs : List Generated} {e : Failure}
    (h : Accounts bytes observe seen s r gs) (he : .error e ∈ r.items) :
    r.items = gs.map .ok ++ [.error e] := by
  rcases h.items_eq with ⟨hitems, -⟩ | ⟨e', hitems, -⟩
  · rw [hitems] at he
    obtain ⟨g, -, hg⟩ := List.mem_map.mp he
    cases hg
  · rw [hitems] at he
    rcases List.mem_append.mp he with hfront | hlast
    · obtain ⟨g, -, hg⟩ := List.mem_map.mp hfront
      cases hg
    · cases List.mem_singleton.mp hlast
      exact hitems

/-- A session that has ended without a completion has failed. -/
theorem Accounts.failed_of_completion {r : Run κ ρ σ} {gs : List Generated} {e : Failure}
    (h : Accounts bytes observe seen s r gs) (he : r.session.completion = .error e)
    (hended : ¬ r.session.IsRunning) :
    ∃ e', r.items = gs.map .ok ++ [.error e'] ∧ r.session.phase = .aborted := by
  rw [h.completion_eq] at he
  cases hreason : r.session.stopReason? with
  | none =>
    rcases h.items_eq with ⟨-, hphase⟩ | hfailed
    · exact absurd (isRunning_of_stopReason? hreason hphase) hended
    · exact hfailed
  | some reason =>
    rw [hreason] at he
    cases he

/-- A generation is one and the same, however it is taken. Collecting it behind any number of steps, with an
observer that never stops, leaves the session that taking items one by one leaves, with the same tokens; and a
stream of any capacity gives these items. A completion has the tokens of the items, and its text is what their
chunks make up; the last item alone carries the reason, that of the completion. A failure comes behind the
tokens that were accepted before it, once, and nothing comes behind it. -/
theorem stream_agrees {model : LanguageModel κ} {gate : LogitGate} {sampler : Sampler ρ} {chance : ρ}
    {params : GenerationParams} {input : List TokenId} {fresh : Session κ ρ} (ht : l.table = .ok table)
    (hfresh : start model gate sampler chance l.decoder params input = .ok fresh) {cache : κ}
    (hs : fresh.withCache cache = s) (hobserve : ∀ seen ids, (observe seen ids).2 = .proceed) (seen : σ)
    (taken limit : Nat) {u : Session κ ρ} (hu : (s.run .silent taken ()).session = u)
    {c : Collected κ ρ σ} (hc : u.collect? observe limit seen = c) :
    c.session = (s.run .silent (taken + limit) ()).session ∧
      tokensOf (s.items (taken + limit)) = c.session.tokens ∧
      (∀ capacity n, ((ItemStream.ofSession s capacity).take n).2 = s.items n) ∧
      (¬ c.session.IsRunning → (u.collect? observe (limit + 1) seen).result ≠ none) ∧
      (∀ done, c.result = some (.ok done) → ∃ gs : List Generated,
        (∀ n, taken + limit ≤ n → s.items n = gs.map .ok) ∧ gs.map (·.token) = done.tokens ∧
          gs.flatMap (·.chunk.toList) = done.text.toList ∧ (∀ g ∈ gs.dropLast, g.finish = none) ∧
          ∀ g ∈ gs.getLast?, g.finish = some done.stopReason) ∧
      (∀ e, c.result = some (.error e) → u.phase ≠ .aborted → ∃ gs : List Generated,
        (∀ n, taken + limit ≤ n → s.items n = gs.map .ok ++ [.error e]) ∧
          gs.map (·.token) = c.session.tokens) := by
  have hstart : s.Fresh (l.contribution table) := by
    rw [← hs]
    exact fresh_start ht hfresh cache
  obtain ⟨gs, h⟩ := accounts_run hstart .silent () (taken + limit)
  obtain ⟨hsession, hitems, hover⟩ := run_of_proceed hobserve limit seen u
  have hall : s.items (taken + limit) = s.items taken ++ (u.run observe limit seen).items := by
    rw [hitems, items_add, hu]
  have hsame : (u.run observe limit seen).session = (s.run .silent (taken + limit) ()).session := by
    rw [hsession, session_add, hu]
  have hcollected : c.session = (u.run observe limit seen).session := by rw [← hc]; rfl
  -- behind the end of the session no further item comes
  have hbehind (hended : ¬ (u.run observe limit seen).session.IsRunning) (n : Nat)
      (hn : taken + limit ≤ n) : s.items n = s.items (taken + limit) := by
    rw [hsame] at hended
    exact items_behind hended hn
  refine ⟨hcollected.trans hsame, ?_, ItemStream.take_ofSession s, ?_, ?_, ?_⟩
  · rw [hcollected, hsame]
    exact h.tokensOf_items
  · intro hended
    rw [hcollected] at hended
    exact result_collect?_ne_none hended
  · intro done hdone
    rw [← hc] at hdone
    -- collecting has either met a failure among the items or come to a reason
    rcases result_collect? observe limit seen u _ hdone with ⟨e, hresult, -⟩ | ⟨-, hover, hresult⟩
    · cases hresult
    · have hended := not_isRunning_of_isOver hover
      rw [hsame] at hresult
      obtain ⟨hok, htokens, htext, hlast⟩ := h.of_completion hresult.symm
      exact ⟨gs, fun n hn => (hbehind hended n hn).trans hok, htokens, htext, h.running, hlast⟩
  · intro e he hu_phase
    rw [← hc] at he
    rcases result_collect? observe limit seen u _ he with ⟨e', hresult, hmem⟩ | ⟨hnone, hover, hresult⟩
    · cases hresult
      have hended := not_isRunning_of_aborted (phase_of_error_mem_items hmem)
      refine ⟨gs, fun n hn => (hbehind hended n hn).trans (h.items_of_error_mem ?_), ?_⟩
      · show .error e ∈ s.items (taken + limit)
        rw [hall]
        exact List.mem_append_right _ hmem
      · rw [hcollected, hsame, h.tokens_eq]
    · -- Without a failure along the way the session has no reason, so it had been aborted before.
      have hended := not_isRunning_of_isOver hover
      rw [hsame] at hresult hended
      obtain ⟨e', he', -⟩ := h.failed_of_completion hresult.symm hended
      have hmem : .error e' ∈ s.items (taken + limit) := by
        show .error e' ∈ (s.run .silent (taken + limit) ()).items
        rw [he']
        exact List.mem_append_right _ (List.mem_singleton_self _)
      rw [hall] at hmem
      rcases List.mem_append.mp hmem with hbefore | hbehind
      · rw [← hu] at hu_phase
        exact absurd (phase_of_error_mem_items hbefore) hu_phase
      · exact absurd hbehind (hnone e')

/-- The session that gives `a`, `b` and the end, collected behind its first token. -/
theorem stream_agrees_ab :
    LogitGate.letters.table = .ok #[[0x61], [0x62], [], [0x3C, 0x2F, 0x73, 0x3E]] ∧
      start flatModel (.ofMatcher LogitGate.abMatcher) scriptedSampler [0, 1, 3]
        LogitGate.letters.decoder {} [0] = .ok abSession ∧
      (∀ log ids, (recorder log ids).2 = .proceed) ∧
      ∃ gs : List Generated, (∀ n, 4 ≤ n → abSession.items n = gs.map .ok) ∧
        gs.map (·.token) = [0, 1, 3] ∧ gs.flatMap (·.chunk.toList) = ['a', 'b'] ∧
        ∀ g ∈ gs.getLast?, g.finish = some .stopToken := by
  have htable : LogitGate.letters.table = .ok #[[0x61], [0x62], [], [0x3C, 0x2F, 0x73, 0x3E]] := by cbv
  have hs : start flatModel (.ofMatcher LogitGate.abMatcher) scriptedSampler [0, 1, 3]
      LogitGate.letters.decoder {} [0] = .ok abSession := rfl
  have hobserve : ∀ log ids, (recorder log ids).2 = .proceed := fun _ _ => rfl
  have hwithCache : abSession.withCache () = abSession := rfl
  obtain ⟨-, -, -, -, hdone, -⟩ := stream_agrees htable hs hwithCache hobserve [] 1 3 rfl rfl
  have hresult : ((abSession.run .silent 1 ()).session.collect? recorder 3 []).result =
      some (.ok
        { text := "ab", tokens := [0, 1, 3], promptCount := 1, generatedCount := 3
          stopReason := .stopToken }) := by cbv
  obtain ⟨gs, hitems, htokens, htext, -, hlast⟩ := hdone _ hresult
  exact ⟨htable, hs, hobserve, gs, hitems, htokens, htext, hlast⟩

end Session
end GuidedDecoding
