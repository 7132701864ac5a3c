import GuidedDecoding.Proofs.Session

/-!
# What holds along a run

A run takes steps while there are items, and a longer run goes on where a shorter one has stopped (`run_add`).
What every step preserves holds behind any number of them (`run_induction`). A session that has ended stays as
it is, so a run that goes on behind the end only learns that there is no further item
(`run_succ_of_not_isRunning`), and collecting such a session gives its completion (`collect?_of_finished`).
-/

namespace GuidedDecoding

def Run.further {κ ρ σ : Type} (observe : Observer σ) (r : Run κ ρ σ) : Run κ ρ σ :=
  match r.session.nextWith observe r.seen with
  | (session, seen, none) => ⟨session, seen, r.items, true⟩
  | (session, seen, some item) => ⟨session, seen, r.items ++ [item], false⟩

namespace Session

variable {κ ρ σ : Type} {observe : Observer σ} {seen seen' : σ} {s t : Session κ ρ}

/-- What every step preserves holds at the end of a run. -/
theorem run_induction {P : Session κ ρ → Prop}
    (hstep : ∀ (s : Session κ ρ) (seen : σ), P s → P (s.nextWith observe seen).1) (hs : P s)
    (limit : Nat) (seen : σ) : P (s.run observe limit seen).session := by
  induction limit generalizing s seen with
  | zero => exact hs
  | succ limit ih =>
    have hnext := hstep s seen hs
    rw [run]
    generalize s.nextWith observe seen = next at hnext ⊢
    obtain ⟨t, seen', _ | item⟩ := next
    · exact hnext
    · exact ih hnext seen'

/-! ### Sessions that have ended -/

theorem not_isRunning_of_finished {reason : StopReason} (h : s.phase = .finished reason) :
    ¬ s.IsRunning := by
  rintro (hphase | hphase) <;> cases h.symm.trans hphase

theorem not_isRunning_of_aborted (h : s.phase = .aborted) : ¬ s.IsRunning := by
  rintro (hphase | hphase) <;> cases h.symm.trans hphase

/-- A session that has not ended has no reason for it. -/
theorem stopReason?_of_isRunning (hs : s.IsRunning) : s.stopReason? = none := by
  unfold stopReason?
  rcases hs with hphase | hphase <;> rw [hphase]

/-- A reason is one to have ended for. -/
theorem phase_of_stopReason? {reason : StopReason} (h : s.stopReason? = some reason) :
    s.phase = .finished reason := by
  unfold stopReason? at h
  cases hphase : s.phase with
  | finished =>
    rw [hphase] at h
    cases h
    rfl
  | _ =>
    rw [hphase] at h
    cases h

/-- A session without a reason has not ended, unless by a failure. -/
theorem isRunning_of_stopReason? (h : s.stopReason? = none) (hs : s.phase ≠ .aborted) : s.IsRunning := by
  unfold stopReason? at h
  cases hphase : s.phase with
  | prefill => exact Or.inl hphase
  | decode => exact Or.inr hphase
  | finished reason =>
    rw [hphase] at h
    cases h
  | aborted => exact absurd hphase hs

/-- A session that has ended has no items, and stays as it is. -/
theorem run_of_not_isRunning (hs : ¬ s.IsRunning) (limit : Nat) :
    (s.run observe limit seen).session = s ∧ (s.run observe limit seen).items = [] := by
  cases limit with
  | zero => exact ⟨rfl, rfl⟩
  | succ limit =>
    rw [run, nextWith_of_not_isRunning hs]
    exact ⟨rfl, rfl⟩

/-- Behind the end a run has no further item. -/
theorem run_succ_of_not_isRunning {limit : Nat}
    (h : ¬ (s.run observe limit seen).session.IsRunning) :
    s.run observe (limit + 1) seen = { s.run observe limit seen with isOver := true } := by
  induction limit generalizing s seen with
  | zero =>
    have hnext := nextWith_of_not_isRunning (s := s) h observe seen
    rw [run, run, hnext]
  | succ limit ih =>
    rw [run] at h
    rw [run, run]
    generalize s.nextWith observe seen = next at h ⊢
    obtain ⟨t, seen', _ | item⟩ := next
    · rfl
    · dsimp only at h ⊢
      rw [ih h]

/-! ### Steps one by one -/

/-- With an item the session has taken a step. -/
theorem Move.hasStepped {item : Item} (h : Move observe seen s t seen' (some item)) :
    ¬ (¬ s.IsRunning ∨ s.params.maxTokens = some 0) := by
  have hboth : s.IsRunning ∧ s.params.maxTokens ≠ some 0 := by
    cases h with
    | failed hs hmost => exact ⟨hs, hmost⟩
    | refused ho => exact ⟨ho.isRunning, ho.mayGenerate⟩
    | unreadable ho => exact ⟨ho.isRunning, ho.mayGenerate⟩
    | generated ho => exact ⟨ho.isRunning, ho.mayGenerate⟩
    | unflushed ho => exact ⟨ho.isRunning, ho.mayGenerate⟩
    | finished ho => exact ⟨ho.isRunning, ho.mayGenerate⟩
  rintro (hs | hmost)
  · exact hs hboth.1
  · exact hboth.2 hmost

/-- Without an item the session has ended. -/
theorem Move.not_isRunning_of_none (h : Move observe seen s t seen' none) : ¬ t.IsRunning := by
  cases h with
  | ended hs => exact hs
  | full => exact not_isRunning_of_finished rfl

/-- Where a run has no further item, the session has ended. -/
theorem not_isRunning_of_isOver {limit : Nat} (h : (s.run observe limit seen).isOver = true) :
    ¬ (s.run observe limit seen).session.IsRunning := by
  induction limit generalizing s seen with
  | zero => cases h
  | succ limit ih =>
    have hmove := nextWith_move observe seen s
    rw [run] at h ⊢
    generalize s.nextWith observe seen = next at h hmove ⊢
    obtain ⟨t, seen', _ | item⟩ := next
    · exact hmove.not_isRunning_of_none
    · exact ih h

/-- A run of one more item takes one step more; behind the end that changes nothing. -/
theorem run_succ (observe : Observer σ) (limit : Nat) (seen : σ) (s : Session κ ρ) :
    s.run observe (limit + 1) seen = (s.run observe limit seen).further observe := by
  induction limit generalizing s seen with
  | zero =>
    rw [run, run, Run.further]
    generalize s.nextWith observe seen = next
    obtain ⟨t, seen', _ | item⟩ := next <;> rfl
  | succ limit ih =>
    have hmove := nextWith_move observe seen s
    rw [run, run]
    generalize s.nextWith observe seen = next at hmove ⊢
    obtain ⟨t, seen', _ | item⟩ := next
    · rw [Run.further, nextWith_of_not_isRunning hmove.not_isRunning_of_none]
    · dsimp only
      rw [ih, Run.further, Run.further]
      generalize (t.run observe limit seen').session.nextWith observe (t.run observe limit seen').seen = last
      obtain ⟨u, seen'', _ | item'⟩ := last <;> rfl

/-- A run goes on where a shorter one has stopped. -/
theorem run_add (observe : Observer σ) (limit more : Nat) (seen : σ) (s : Session κ ρ) :
    let r := s.run observe limit seen
    let r' := r.session.run observe more r.seen
    s.run observe (limit + more) seen =
      ⟨r'.session, r'.seen, r.items ++ r'.items, r.isOver || r'.isOver⟩ := by
  induction more with
  | zero => simp [run]
  | succ more ih =>
    dsimp only at ih ⊢
    rw [← Nat.add_assoc, run_succ, ih, run_succ]
    unfold Run.further
    dsimp only
    have hover : (s.run observe limit seen).isOver = true →
        ¬ (s.run observe limit seen).session.IsRunning := not_isRunning_of_isOver
    generalize s.run observe limit seen = r at hover ⊢
    generalize hrest : r.session.run observe more r.seen = r'
    have hmove := nextWith_move observe r'.seen r'.session
    generalize r'.session.nextWith observe r'.seen = last at hmove ⊢
    obtain ⟨u, seen'', _ | item⟩ := last
    · simp
    · -- There is a further item, so the shorter run was not over.
      have hopen : r.isOver = false := by
        by_contra hr
        have hr' := hover (by simpa using hr)
        refine hmove.hasStepped (Or.inl ?_)
        rw [← hrest, (run_of_not_isRunning hr' more).1]
        exact hr'
      simp [hopen]

/-! ### Failures -/

/-- A failure ends the session. -/
theorem Move.phase_of_error {e : Failure} (h : Move observe seen s t seen' (some (.error e))) :
    t.phase = .aborted := by
  cases h <;> rfl

/-- A failure among the items has ended the session. -/
theorem phase_of_error_mem_items {e : Failure} {limit : Nat}
    (h : .error e ∈ (s.run observe limit seen).items) :
    (s.run observe limit seen).session.phase = .aborted := by
  induction limit generalizing s seen with
  | zero => cases h
  | succ limit ih =>
    have hmove := nextWith_move observe seen s
    rw [run] at h ⊢
    generalize s.nextWith observe seen = next at h hmove ⊢
    obtain ⟨t, seen', _ | item⟩ := next
    · cases h
    · dsimp only at h hmove ⊢
      rcases List.mem_cons.mp h with rfl | h
      · have haborted := hmove.phase_of_error
        rw [(run_of_not_isRunning (not_isRunning_of_aborted haborted) limit).1]
        exact haborted
      · exact ih h

/-! ### Collecting -/

/-- Collecting a session that ends for a reason gives its completion. -/
theorem collect?_of_finished {limit : Nat} {reason : StopReason}
    (h : (s.run observe limit seen).session.phase = .finished reason) :
    (s.collect? observe (limit + 1) seen).result =
      some (s.run observe limit seen).session.completion := by
  unfold collect?
  rw [run_succ_of_not_isRunning (not_isRunning_of_finished h)]
  dsimp only
  split
  · -- A failure would have aborted the session instead.
    next e hfailure =>
    obtain ⟨item, hitem, heq⟩ := List.exists_of_findSome?_eq_some hfailure
    cases item with
    | error e' => cases h.symm.trans (phase_of_error_mem_items hitem)
    | ok g => cases heq
  · rfl

end Session
end GuidedDecoding
