import GuidedDecoding.Proofs.Pattern.Anchored

/-!
# Patterns that never get stuck

A walk that is alive may still have nowhere to go: what is left of it may ask for a character that there is none
of, or for a word to end where it goes on. A pattern is `Live` if this never happens, so that whatever keeps its
walk alive is the beginning of a match.

The patterns without conditions, in which every set has a character, are live (`live_of_plain`). What is left of
such a pattern behind a byte is of the same kind, and can be matched.
-/

namespace GuidedDecoding.Pattern

open Utf8 (Reading)

/-- Whatever keeps a walk of the pattern alive is the beginning of a match. -/
def Live (p : Pattern) : Prop :=
  ∀ bytes, (p.start.run bytes).isAlive = true → ∃ more, ((p.start.run bytes).run more).isComplete = true

namespace Expr

/-- There are no conditions, and each set has a character that can still be completed. -/
def Plain : Expr → Prop
  | .empty => True
  | .chars set reading => ∃ c ∈ set, ∃ bytes, reading.Spells bytes c
  | .look _ => False
  | .seq first second => first.Plain ∧ second.Plain
  | .alt left right => left.Plain ∧ right.Plain
  | .rep body _ _ => body.Plain

variable {r : Reading} {e next : Expr} {before : Option UInt8} {b : UInt8} {min : Nat} {max : Option Nat}

/-- A set is plain if it holds a character. -/
theorem plain_ofSet {set : CharSet} : (ofSet set).Plain ↔ ∃ c, c ∈ set := by
  constructor
  · rintro ⟨c, hc, -⟩
    exact ⟨c, hc⟩
  · rintro ⟨c, hc⟩
    exact ⟨c, hc, String.utf8EncodeChar c, rfl⟩

theorem Plain.repetition (h : e.Plain) : (e.repetition min max).Plain := by
  unfold Expr.repetition
  split
  · trivial
  · exact h

theorem Plain.andThen (h : e.Plain) (hnext : next.Plain) : (e.andThen next).Plain := by
  fun_cases Expr.andThen e next with
  | case1 => exact hnext
  | case2 => exact h
  | case3 => exact ⟨h, hnext⟩

/-- If the same bytes match everywhere, then so do some in any number. -/
theorem exists_times {M : Language} {bytes : Bytes} (h : ∀ before after, M before bytes after) (n : Nat) :
    ∃ bytes, ∀ before after, M.Times n before bytes after := by
  induction n with
  | zero => exact ⟨[], fun _ _ => rfl⟩
  | succ n ih =>
    obtain ⟨rest, hrest⟩ := ih
    exact ⟨bytes ++ rest, fun _ _ => ⟨bytes, rest, rfl, h _ _, hrest _ _⟩⟩

/-- Without conditions it does not matter what stands around a match. -/
theorem Plain.exists_matches (h : e.Plain) (ho : e.Ordered) :
    ∃ bytes, ∀ before after, e.Matches before bytes after := by
  induction e with
  | empty => exact ⟨[], fun _ _ => rfl⟩
  | chars set reading =>
    obtain ⟨c, hc, bytes, hbytes⟩ := h
    exact ⟨bytes, fun _ _ => ⟨c, hc, hbytes⟩⟩
  | look => exact h.elim
  | seq first second ih₁ ih₂ =>
    obtain ⟨u, hu⟩ := ih₁ h.1 ho.1
    obtain ⟨v, hv⟩ := ih₂ h.2 ho.2
    exact ⟨u ++ v, fun _ _ => ⟨u, v, rfl, hu _ _, hv _ _⟩⟩
  | alt left right ih₁ _ =>
    obtain ⟨bytes, hbytes⟩ := ih₁ h.1 ho.1
    exact ⟨bytes, fun _ _ => Or.inl (hbytes _ _)⟩
  | rep body min max ih =>
    obtain ⟨bytes, hbytes⟩ := ih h ho.1
    obtain ⟨all, hall⟩ := exists_times hbytes min
    exact ⟨all, fun _ _ => ⟨min, Nat.le_refl min, ho.2, hall _ _⟩⟩

/-! ### Taking a byte -/

/-- A set that meets the range of a reader has a character that the reader can complete. -/
theorem plain_of_mem_stepChars {set : CharSet} {reading : Reading} (hreading : reading.Standing)
    (hnext : next ∈ stepChars set reading b) : next.Plain := by
  obtain ⟨held, hheld⟩ := hreading
  unfold stepChars at hnext
  cases hb : reading.accept b with
  | refused =>
    simp only [hb] at hnext
    cases hnext
  | char c =>
    simp only [hb] at hnext
    split at hnext
    · obtain rfl := List.mem_singleton.mp hnext
      trivial
    · cases hnext
  -- the byte goes on into the range of some character of the set, which can be completed
  | more after =>
    simp only [hb] at hnext
    split at hnext
    · next hmeets =>
      obtain rfl := List.mem_singleton.mp hnext
      obtain ⟨n, hlow, hhigh, hmem⟩ := CharSet.exists_of_meets (Reading.range_le_of_more hb) hmeets
      obtain ⟨c, bytes, rfl, hc⟩ := hheld.exists_completes hb hlow hhigh
      exact ⟨c, hmem, bytes, Reading.spells_iff.mpr hc⟩
    · cases hnext

/-- What is left of a plain expression is plain. -/
theorem Plain.of_mem_step (h : e.Plain) (hat : e.At r) (hr : r.Standing) (hnext : next ∈ e.step before b) :
    next.Plain := by
  -- as in `Ordered.of_mem_step`; only in a set of characters there is something to show
  induction e generalizing r next with
  | empty => cases hnext
  | look => cases hnext
  | chars set reading =>
    obtain rfl : reading = r := hat
    exact plain_of_mem_stepChars hr hnext
  | seq first second ih₁ ih₂ =>
    have hthrough : next ∈ (first.step before b).map (·.andThen second) → next.Plain := by
      intro hmem
      obtain ⟨left, hleft, rfl⟩ := List.mem_map.mp hmem
      exact (ih₁ h.1 hat.1 hr hleft).andThen h.2
    rw [step] at hnext
    split at hnext
    · rcases List.mem_append.mp hnext with hfirst | hsecond
      · exact hthrough hfirst
      · exact ih₂ h.2 hat.2 Reading.standing_between hsecond
    · exact hthrough hnext
  | alt left right ih₁ ih₂ =>
    rcases List.mem_append.mp hnext with hleft | hright
    · exact ih₁ h.1 hat.1 hr hleft
    · exact ih₂ h.2 hat.2 hr hright
  | rep body min max ih =>
    obtain ⟨rfl, hbody⟩ := hat
    rw [step] at hnext
    split at hnext
    · cases hnext
    · obtain ⟨left, hleft, rfl⟩ := List.mem_map.mp hnext
      exact (ih h hbody hr hleft).andThen (Plain.repetition (e := body) h)

/-! ### The end of the text -/

/-- What stands before the end of the text is empty, or a part of its own. -/
theorem andThen_textEnd_cases (e : Expr) :
    e.andThen (.look .textEnd) = .look .textEnd ∨ e.andThen (.look .textEnd) = .seq e (.look .textEnd) := by
  cases e with
  | empty => exact Or.inl rfl
  | chars | look | seq | alt | rep => exact Or.inr rfl

/-- The text does not end before a byte. -/
theorem acceptsEmpty_andThen_textEnd :
    (e.andThen (.look .textEnd)).acceptsEmpty ⟨before, some b⟩ = false := by
  rcases andThen_textEnd_cases e with h | h
  · simp [h, acceptsEmpty, Look.holds]
  · simp [h, acceptsEmpty, Look.holds]

theorem exists_of_mem_step_andThen_textEnd (h : next ∈ (e.andThen (.look .textEnd)).step before b) :
    ∃ left ∈ e.step before b, next = left.andThen (.look .textEnd) := by
  rcases andThen_textEnd_cases e with he | he
  · rw [he] at h
    cases h
  · have hmap : next ∈ (e.step before b).map (·.andThen (.look .textEnd)) := by
      rw [he, step] at h
      split at h
      · simpa [step] using h
      · exact h
    obtain ⟨left, hleft, rfl⟩ := List.mem_map.mp hmap
    exact ⟨left, hleft, rfl⟩

end Expr

/-! ### Walks -/

namespace Walk

/-- All that may be left is plain, and the text is to end behind it. -/
structure Plain (w : Walk) : Prop where
  residual : ∀ f ∈ w.residuals, ∃ (e : Expr) (r : Reading),
    e.Plain ∧ e.Ordered ∧ r.Standing ∧ e.At r ∧ f = e.andThen (.look .textEnd)
  not_overrun : w.overrun = false

variable {w : Walk}

theorem Plain.sound (h : w.Plain) : w.Sound := by
  intro f hf
  obtain ⟨e, r, -, ho, hr, hat, rfl⟩ := h.residual f hf
  exact ⟨ho.andThen trivial, r, hr, hat.andThen rfl⟩

/-- What a step leaves is plain again, with the end of the text behind it. -/
theorem Plain.step (h : w.Plain) (b : UInt8) : (w.step b).Plain where
  residual := by
    intro next hnext
    obtain ⟨f, hf, hstep⟩ := mem_step.mp hnext
    obtain ⟨e, r, he, ho, hr, hat, rfl⟩ := h.residual f hf
    obtain ⟨left, hleft, rfl⟩ := Expr.exists_of_mem_step_andThen_textEnd hstep
    obtain ⟨r', hr', hat'⟩ := hat.exists_next_of_mem_step hleft
    exact ⟨left, r', he.of_mem_step hat hr hleft, ho.of_mem_step hleft, hr.next? hr', hat', rfl⟩
  not_overrun := by
    show w.residuals.any _ = false
    rw [List.any_eq_false]
    intro f hf
    obtain ⟨e, r, -, -, -, -, rfl⟩ := h.residual f hf
    simp [Expr.acceptsEmpty_andThen_textEnd]

theorem Plain.run (h : w.Plain) (bytes : Bytes) : (w.run bytes).Plain := by
  induction bytes generalizing w with
  | nil => exact h
  | cons b bytes ih => exact ih (h.step b)

/-- While such a walk is alive it can be completed. -/
theorem Plain.exists_isComplete (h : w.Plain) (halive : w.isAlive = true) :
    ∃ more, (w.run more).isComplete = true := by
  obtain ⟨f, hf⟩ : ∃ f, f ∈ w.residuals := by
    apply List.exists_mem_of_ne_nil
    intro hnil
    simp [isAlive, hnil, h.not_overrun] at halive
  obtain ⟨e, r, he, ho, -, -, rfl⟩ := h.residual f hf
  obtain ⟨bytes, hbytes⟩ := he.exists_matches ho
  refine ⟨bytes, (isComplete_run_iff h.sound).mpr ⟨_, hf, Expr.matches_andThen.mpr ?_⟩⟩
  exact ⟨bytes, [], (List.append_nil bytes).symm, hbytes _ _, rfl, rfl⟩

end Walk

variable {text : String} {t : Tree} {e : Expr} {p : Pattern}

/-- A text without conditions, in which every set has a character, is a live pattern. -/
theorem live_of_plain (h : Tree.read? text.toList = some t) (he : t.expr? = some e) (hplain : e.Plain)
    (hp : ofText? text = some p) : p.Live := by
  have hstart : p.start.Plain := by
    refine ⟨?_, rfl⟩
    intro f hf
    obtain rfl : f = p.expr := List.mem_singleton.mp hf
    obtain ⟨e', he', hexpr⟩ := exists_expr?_of_ofText? h hp
    obtain rfl : e' = e := Option.some.inj (he'.symm.trans he)
    have hordered := Tree.ordered_of_read? h
    exact ⟨e', .between, hplain, Expr.inherited_ordered.of_expr? hordered he, Reading.standing_between,
      Expr.inherited_at.of_expr? hordered he, hexpr⟩
  intro bytes halive
  exact (hstart.run bytes).exists_isComplete halive

end GuidedDecoding.Pattern
