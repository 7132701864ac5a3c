import GuidedDecoding.Proofs.Sampling.Weights

/-!
# Sampling from finite scores

Scores of which one is finite have a best one that is finite (`best_finite`), and as long as a scaled score is left
there is a candidate (`exists_share`, `choice_ne_nil`). So a sampler chooses a token with a finite score, except
where its temperature takes all scores to negative infinity (`Vanishes`): these do not count as overflowing, and there
is nothing to draw from (`sample_finite_iff`).
-/

namespace GuidedDecoding
namespace Sampling

open Single

variable {p : SamplingParams} {g : Random.Generator} {scores scaled : List Float32} {token : TokenId}

/-! ### Candidates -/

/-- A share that can be drawn makes a candidate. -/
theorem ranked_ne_nil {shares : List Float32} {share : Float32} (hmem : share ∈ shares) (hpos : 0 < share)
    (hfinite : share.isFinite = true) : ranked shares ≠ [] := by
  obtain ⟨i, hi, rfl⟩ := List.mem_iff_getElem.mp hmem
  apply List.ne_nil_of_mem (a := Candidate.mk i.toUInt32 shares[i])
  rw [ranked, List.mem_mergeSort, List.mem_filter]
  refine ⟨List.mem_mapIdx.mpr ⟨i, hi, rfl⟩, ?_⟩
  rw [Bool.and_eq_true, decide_eq_true_eq]
  exact ⟨hpos, hfinite⟩

/-- The head holds the first candidate at least. -/
theorem headShare_ne_nil (share sum : Float32) {cs : List Candidate} (h : cs ≠ []) : headShare share sum cs ≠ [] := by
  cases cs with
  | nil => exact absurd rfl h
  | cons c rest =>
    rw [headShare]
    split <;> exact List.cons_ne_nil _ _

/-- Narrowing the choice leaves a candidate. -/
theorem choice_ne_nil (p : SamplingParams) {shares : List Float32} (h : ranked shares ≠ []) : choice p shares ≠ [] := by
  have hcounted : counted p shares ≠ [] := by
    rw [counted]
    split
    · next hpos => simp [h]; omega
    · exact h
  rw [choice]
  split
  · exact headShare_ne_nil _ _ hcounted
  · exact hcounted

theorem exists_draw_eq_ok (g : Random.Generator) {cs : List Candidate} (h : cs ≠ []) :
    ∃ token, (draw g cs).2 = .ok token := by
  cases cs with
  | nil => exact absurd rfl h
  | cons c rest => exact ⟨_, rfl⟩

/-- Where every score has become negative infinity no token has a probability. -/
theorem ranked_of_forall_minusInfinity (h : ∀ y ∈ scaled, y = minusInfinity) : ranked (probabilities scaled) = [] := by
  by_contra hne
  obtain ⟨c, hc⟩ := List.exists_mem_of_ne_nil _ hne
  obtain ⟨i, share, hshare, hpos, -⟩ := mem_ranked hc
  have hi : i < scaled.length := by
    have hbound := (List.getElem?_eq_some_iff.mp hshare).1
    rwa [length_probabilities] at hbound
  have hscore : scaled[i]? = some minusInfinity := by
    rw [List.getElem?_eq_getElem hi, h _ (List.getElem_mem hi)]
  exact not_zero_lt_probability hscore hshare hpos

/-! ### The best score -/

/-- Among scores of which one is finite the best one is. -/
theorem best_finite {first : Float32} {rest : List Float32} (hall : ∀ x ∈ first :: rest, Scored x)
    (hfinite : ∃ x ∈ first :: rest, x.isFinite = true) :
    ∃ (i : ℕ) (x : Float32), (first :: rest)[i]? = some x ∧ x.isFinite = true ∧ best first rest = i.toUInt32 := by
  rcases bestFrom_eq_or 0 first 1 rest with ⟨hplace, hrest⟩ | ⟨i, x, beaten, hplace, hi, hbeats⟩
  · refine ⟨0, first, rfl, ?_, by rw [best, hplace]⟩
    refine (hall first List.mem_cons_self).resolve_right ?_
    rintro rfl
    obtain ⟨x, hx, hx'⟩ := hfinite
    have hbeats := minusInfinity_lt_of_isFinite hx'
    rcases List.mem_cons.mp hx with rfl | hmem
    · exact not_lt_minusInfinity hbeats
    · exact hrest x hmem hbeats
  · refine ⟨i + 1, x, hi, ?_, by rw [best, hplace, Nat.add_comm]⟩
    have hmem : x ∈ first :: rest := List.mem_cons_of_mem _ (List.mem_of_getElem? hi)
    refine (hall x hmem).resolve_right ?_
    rintro rfl
    exact not_lt_minusInfinity hbeats

/-! ### Finite scores -/

/-- A temperature is used, and all scores divided by it fall to negative infinity. -/
def Vanishes (p : SamplingParams) (scores : List Float32) : Prop :=
  p.isGreedy = false ∧ ∀ y ∈ scale p.temperature scores, y = minusInfinity

/-- Where candidates are drawn from, no score is a number that is none, or positive infinity. -/
theorem scored_of_draws (h : takesBest p scores = false) : ∀ y ∈ scale p.temperature scores, Scored y := by
  intro y hy
  rw [takesBest, Bool.or_eq_false_iff, List.any_eq_false] at h
  have hfits := h.2 y hy
  rw [Bool.not_eq_true, Bool.or_eq_false_iff] at hfits
  by_cases hminus : y = minusInfinity
  · exact Or.inr hminus
  · refine Or.inl (isFinite_of_ne hfits.1 ?_ hminus)
    rintro rfl
    exact absurd hfits.2 (by decide)

/-- Scores that have all fallen to negative infinity are drawn from. -/
theorem not_takesBest_of_vanishes (h : Vanishes p scores) : takesBest p scores = false := by
  rw [takesBest, h.1, Bool.false_or, List.any_eq_false]
  intro y hy
  rw [h.2 y hy]
  decide

theorem takesBest_greedy (scores : List Float32) : takesBest .greedy scores = true := rfl

/-- Where all scores vanish there is no candidate. -/
theorem sample_of_vanishes (g : Random.Generator) {first : Float32} {rest : List Float32}
    (h : Vanishes p (first :: rest)) : ((sampler p).sample g (first :: rest)).2 = .error (.sampling .noCandidate) := by
  have hnone : candidates p (scale p.temperature (first :: rest)) = [] := by
    have hbegins := isPrefix_choice p (probabilities (scale p.temperature (first :: rest)))
    rw [ranked_of_forall_minusInfinity h.2] at hbegins
    rw [candidates_eq_choice]
    exact List.prefix_nil.mp hbegins
  rw [sample_cons, if_neg (by rw [not_takesBest_of_vanishes h]; exact Bool.false_ne_true), hnone]
  rfl

/-- Where the sampler draws, and a scaled score is left, a token is drawn. -/
theorem exists_sample_of_draws (g : Random.Generator) {first : Float32} {rest : List Float32}
    (hdraws : takesBest p (first :: rest) = false) (h : ¬Vanishes p (first :: rest)) :
    ∃ token, ((sampler p).sample g (first :: rest)).2 = .ok token := by
  rw [Vanishes, not_and] at h
  have hsome := h (Bool.or_eq_false_iff.mp hdraws).1
  push Not at hsome
  obtain ⟨y, hy, hne⟩ := hsome
  have hscored := scored_of_draws hdraws
  obtain ⟨share, hmem, hpos, hshare⟩ := exists_share hscored ⟨y, hy, (hscored y hy).resolve_right hne⟩
  rw [sample_cons, if_neg (by rw [hdraws]; exact Bool.false_ne_true), candidates_eq_choice]
  exact exists_draw_eq_ok g (choice_ne_nil p (ranked_ne_nil hmem hpos hshare))

/-- Where a score is left, a token of a finite score is chosen. -/
theorem exists_of_not_vanishes {first : Float32} {rest : List Float32} (hscores : ∀ x ∈ first :: rest, Scored x)
    (hfinite : ∃ x ∈ first :: rest, x.isFinite = true) (g : Random.Generator) (h : ¬Vanishes p (first :: rest)) :
    ∃ (i : ℕ) (x : Float32), (first :: rest)[i]? = some x ∧ x.isFinite = true ∧
      ((sampler p).sample g (first :: rest)).2 = .ok i.toUInt32 := by
  cases htakes : takesBest p (first :: rest) with
  | true =>
    obtain ⟨i, x, hi, hx, hbest⟩ := best_finite hscores hfinite
    exact ⟨i, x, hi, hx, by rw [sample_cons, if_pos htakes, hbest]⟩
  | false =>
    obtain ⟨token, hsample⟩ := exists_sample_of_draws g htakes h
    obtain ⟨i, x, hi, hne, rfl⟩ := score_ne_of_draw htakes hsample
    exact ⟨i, x, hi, (hscores x (List.mem_of_getElem? hi)).resolve_right hne, hsample⟩

/-- Scores of which one is finite, and all others finite or negative infinity, give a token of a finite score, unless a
temperature takes all of them to negative infinity. In that one case there is no candidate. Where a scaled score becomes
positive infinity or no number the choice is the greedy one; where some fall to negative infinity the others are left to
draw from. -/
theorem sample_finite_iff (hscores : ∀ x ∈ scores, x.isFinite = true ∨ x = minusInfinity)
    (hfinite : ∃ x ∈ scores, x.isFinite = true) (p : SamplingParams) (g : Random.Generator) :
    ((∃ (i : ℕ) (x : Float32), scores[i]? = some x ∧ x.isFinite = true ∧
        ((sampler p).sample g scores).2 = .ok i.toUInt32) ↔ ¬Vanishes p scores) ∧
      (Vanishes p scores → ((sampler p).sample g scores).2 = .error (.sampling .noCandidate)) ∧
      (takesBest p scores = true → ((sampler p).sample g scores).2 = ((sampler .greedy).sample g scores).2) ∧
      (takesBest p scores = false → ∀ token, ((sampler p).sample g scores).2 = .ok token →
        ∃ (i : ℕ) (y : Float32), (scale p.temperature scores)[i]? = some y ∧ y ≠ minusInfinity ∧
          token = i.toUInt32) := by
  obtain ⟨first, rest, rfl⟩ : ∃ first rest, scores = first :: rest :=
    List.exists_cons_of_ne_nil (List.ne_nil_of_mem hfinite.choose_spec.1)
  refine ⟨⟨?_, exists_of_not_vanishes hscores hfinite g⟩, sample_of_vanishes g, ?_,
    fun hdraws token => scaled_ne_of_draw hdraws⟩
  · rintro ⟨i, x, -, -, hsample⟩ h
    rw [sample_of_vanishes g h] at hsample
    cases hsample
  · intro htakes
    rw [sample_cons, sample_cons, if_pos htakes, if_pos (takesBest_greedy _)]

/-- Two scores and a masked one, at a temperature of one. -/
theorem sample_finite_iff_masked :
    ((∀ x ∈ [2, minusInfinity, -3], x.isFinite = true ∨ x = minusInfinity) ∧
        ∃ x ∈ [2, minusInfinity, -3], x.isFinite = true) ∧
      ∀ g, ∃ (i : ℕ) (x : Float32), [2, minusInfinity, -3][i]? = some x ∧ x.isFinite = true ∧
        ((sampler {}).sample g [2, minusInfinity, -3]).2 = .ok i.toUInt32 := by
  have hscores : ∀ x ∈ [2, minusInfinity, -3], x.isFinite = true ∨ x = minusInfinity := by decide +kernel
  have hfinite : ∃ x ∈ [2, minusInfinity, -3], x.isFinite = true := ⟨2, List.mem_cons_self, by decide⟩
  refine ⟨⟨hscores, hfinite⟩, fun g => (sample_finite_iff hscores hfinite {} g).1.mpr ?_⟩
  rintro ⟨-, hall⟩
  exact absurd hall (by decide +kernel)

/-- A very low temperature takes two finite scores to negative infinity, and nothing is chosen. One that takes the first
of three scores there does not make the choice greedy. -/
theorem sample_of_overflow :
    ((∀ x ∈ ([-5, -6] : List Float32), x.isFinite = true) ∧
        ((sampler (.atTemperature 1e-39)).sample (generator {}) [-5, -6]).2 = .error (.sampling .noCandidate)) ∧
      (scale 1e-38 [-5, -2e-38, -1e-38])[0]? = some minusInfinity ∧
        takesBest (.atTemperature 1e-38) [-5, -2e-38, -1e-38] = false := by
  refine ⟨⟨by decide, ?_⟩, ?_, ?_⟩
  · decide +kernel
  · decide +kernel
  · decide +kernel

end Sampling
end GuidedDecoding
