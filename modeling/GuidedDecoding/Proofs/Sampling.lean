import GuidedDecoding.Proofs.Number.Single
import GuidedDecoding.Proofs.TokenMask
import GuidedDecoding.Sampling

/-!
# What a sampler chooses

A sampler either takes the best score or draws one of its candidates (`takesBest`). Candidates have a positive
probability, which a score of negative infinity never has (`score_ne_of_draw`). The best score beats another
one, unless nothing beats the first (`bestFrom_eq_or`).

So masked scores lead outside the mask in one case only, that the sampler takes the best score, the first token is
masked, and no permitted one scores more than negative infinity; then it is the first token that is chosen
(`sample_masked_iff`).
-/

namespace GuidedDecoding
namespace Sampling

open Single

variable {p : SamplingParams} {g : Random.Generator} {scores : List Float32} {token : TokenId}

/-- Whether the best score wins: no temperature is used, or a scaled score overflows. -/
def takesBest (p : SamplingParams) (scores : List Float32) : Bool :=
  p.isGreedy || (scale p.temperature scores).any fun y => y.isNaN || y == plusInfinity

theorem sample_cons (p : SamplingParams) (g : Random.Generator) (x : Float32) (rest : List Float32) :
    (sampler p).sample g (x :: rest) =
      if takesBest p (x :: rest) then (g, .ok (best x rest))
      else draw g (candidates p (scale p.temperature (x :: rest))) := rfl

/-! ### The best score -/

/-- The best score is the one in the lead, which none beats, or it beats another one. -/
theorem bestFrom_eq_or (winner : Nat) (lead : Float32) (place : Nat) (scores : List Float32) :
    (bestFrom winner lead place scores = winner ∧ ∀ x ∈ scores, ¬ lead < x) ∨
      ∃ i x beaten, bestFrom winner lead place scores = place + i ∧ scores[i]? = some x ∧ beaten < x := by
  induction scores generalizing winner lead place with
  | nil => exact Or.inl ⟨rfl, by simp⟩
  | cons x rest ih =>
    rw [bestFrom]
    split
    · next hbeats =>
      rcases ih place x (place + 1) with ⟨hplace, -⟩ | ⟨i, y, beaten, hplace, hi, hy⟩
      · exact Or.inr ⟨0, x, lead, hplace, rfl, hbeats⟩
      · exact Or.inr ⟨i + 1, y, beaten, by omega, hi, hy⟩
    · next hbeats =>
      rcases ih winner lead (place + 1) with ⟨hplace, hrest⟩ | ⟨i, y, beaten, hplace, hi, hy⟩
      · refine Or.inl ⟨hplace, ?_⟩
        rw [List.forall_mem_cons]
        exact ⟨hbeats, hrest⟩
      · exact Or.inr ⟨i + 1, y, beaten, by omega, hi, hy⟩

/-- The first score stays in the lead where none beats it. -/
theorem bestFrom_of_not_lt (winner : Nat) {lead : Float32} (place : Nat) (h : ∀ x ∈ scores, ¬ lead < x) :
    bestFrom winner lead place scores = winner := by
  induction scores generalizing place with
  | nil => rfl
  | cons x rest ih =>
    rw [List.forall_mem_cons] at h
    rw [bestFrom, if_neg h.1]
    exact ih (place + 1) h.2

/-! ### Candidates -/

/-- A score of negative infinity has no probability. -/
theorem not_zero_lt_probability {i : Nat} (h : scores[i]? = some minusInfinity) {x : Float32}
    (hx : (probabilities scores)[i]? = some x) : ¬ 0 < x := by
  cases scores with
  | nil => cases h
  | cons first rest =>
    rw [probabilities] at hx
    simp only [List.getElem?_map, h, Option.map_some, Option.some.injEq] at hx
    rw [← hx]
    exact not_zero_lt_div (exponential_minusInfinity_sub _)

/-- A candidate is the token of some place, with its share. -/
theorem mem_ranked {probabilities : List Float32} {c : Candidate} (h : c ∈ ranked probabilities) :
    ∃ (i : Nat) (x : Float32), probabilities[i]? = some x ∧ 0 < x ∧ c.token = i.toUInt32 := by
  rw [ranked, List.mem_mergeSort, List.mem_filter, List.mem_mapIdx] at h
  obtain ⟨⟨i, hi, rfl⟩, hpositive⟩ := h
  simp only [Bool.and_eq_true, decide_eq_true_eq] at hpositive
  exact ⟨i, _, List.getElem?_eq_getElem hi, hpositive.1, rfl⟩

def counted (p : SamplingParams) (shares : List Float32) : List Candidate :=
  if 0 < p.topK then (ranked shares).take p.topK else ranked shares

def choice (p : SamplingParams) (shares : List Float32) : List Candidate :=
  if p.topP < 1 then headShare p.topP 0 (counted p shares) else counted p shares

/-- The candidates are chosen by their shares alone. -/
theorem candidates_eq_choice (p : SamplingParams) (scaled : List Float32) :
    candidates p scaled = choice p (probabilities scaled) := rfl

theorem isPrefix_headShare (share sum : Float32) (cs : List Candidate) : headShare share sum cs <+: cs := by
  induction cs generalizing sum with
  | nil => exact List.prefix_rfl
  | cons c rest ih =>
    rw [headShare]
    split
    · exact (List.prefix_cons_inj c).mpr (List.nil_prefix)
    · exact (List.prefix_cons_inj c).mpr (ih _)

theorem isPrefix_counted (p : SamplingParams) (shares : List Float32) : counted p shares <+: ranked shares := by
  rw [counted]
  split
  · exact List.take_prefix _ _
  · exact List.prefix_rfl

/-- First the count leaves some of the ranked candidates, and then the sum some of those. -/
theorem isPrefix_choice_counted (p : SamplingParams) (shares : List Float32) :
    choice p shares <+: counted p shares := by
  rw [choice]
  split
  · exact isPrefix_headShare _ _ _
  · exact List.prefix_rfl

/-- Narrowing the choice leaves the first of the candidates. -/
theorem isPrefix_choice (p : SamplingParams) (shares : List Float32) : choice p shares <+: ranked shares :=
  (isPrefix_choice_counted p shares).trans (isPrefix_counted p shares)

/-- What is drawn is one of the candidates. -/
theorem exists_mem_of_draw {cs : List Candidate} (h : (draw g cs).2 = .ok token) : ∃ c ∈ cs, c.token = token := by
  cases cs with
  | nil => cases h
  | cons c rest =>
    unfold draw at h
    dsimp only at h
    rw [Except.ok.injEq] at h
    refine ⟨_, ?_, h⟩
    generalize drawPlace _ _ _ = place
    cases hplace : (c :: rest)[place]? with
    | none => exact List.mem_cons_self
    | some drawn => exact List.mem_of_getElem? hplace

/-- A score of negative infinity that does not overflow when it is scaled stays what it is. -/
theorem scale_minusInfinity {temperature : Float32} {i : Nat} (h : scores[i]? = some minusInfinity)
    (hfits : (scale temperature scores).any (fun y => y.isNaN || y == plusInfinity) = false) :
    (scale temperature scores)[i]? = some minusInfinity := by
  have hi : (scale temperature scores)[i]? =
      some (minusInfinity * narrow (1 / widen temperature) + 0) := by
    rw [scale, List.getElem?_map, h]
    rfl
  rw [List.any_eq_false] at hfits
  have hnone := hfits _ (List.mem_of_getElem? hi)
  rw [hi]
  rcases minusInfinity_scaled (narrow (1 / widen temperature)) with hnan | hplus | hsame
  · rw [hnan] at hnone
    exact absurd rfl hnone
  · rw [hplus] at hnone
    exact absurd rfl hnone
  · rw [hsame]

theorem length_probabilities (scores : List Float32) : (probabilities scores).length = scores.length := by
  cases scores with
  | nil => rfl
  | cons x rest => simp [probabilities]

/-- Where the sampler draws, the scaled score of the token it chooses is not negative infinity. -/
theorem scaled_ne_of_draw (hdraws : takesBest p scores = false)
    (h : ((sampler p).sample g scores).2 = .ok token) :
    ∃ (i : ℕ) (y : Float32), (scale p.temperature scores)[i]? = some y ∧ y ≠ minusInfinity ∧ token = i.toUInt32 := by
  cases scores with
  | nil => cases h
  | cons first rest =>
    rw [sample_cons, if_neg (by simp [hdraws]), candidates_eq_choice] at h
    obtain ⟨c, hc, rfl⟩ := exists_mem_of_draw h
    obtain ⟨i, share, hshare, hpositive, htoken⟩ := mem_ranked ((isPrefix_choice p _).subset hc)
    have hlt : i < (scale p.temperature (first :: rest)).length := by
      have hbound := (List.getElem?_eq_some_iff.mp hshare).1
      rwa [length_probabilities] at hbound
    refine ⟨i, (scale p.temperature (first :: rest))[i], List.getElem?_eq_getElem hlt, ?_, htoken⟩
    intro hscaled
    have hi : (scale p.temperature (first :: rest))[i]? = some minusInfinity := by
      rw [List.getElem?_eq_getElem hlt, hscaled]
    exact not_zero_lt_probability hi hshare hpositive

/-- Where the sampler draws, the token it chooses does not score negative infinity. -/
theorem score_ne_of_draw (hdraws : takesBest p scores = false)
    (h : ((sampler p).sample g scores).2 = .ok token) :
    ∃ (i : Nat) (x : Float32), scores[i]? = some x ∧ x ≠ minusInfinity ∧ token = i.toUInt32 := by
  obtain ⟨i, y, hy, hne, htoken⟩ := scaled_ne_of_draw hdraws h
  have hlt : i < scores.length := by
    have hbound := (List.getElem?_eq_some_iff.mp hy).1
    rwa [scale, List.length_map] at hbound
  refine ⟨i, scores[i], List.getElem?_eq_getElem hlt, ?_, htoken⟩
  intro hscore
  have hi : scores[i]? = some minusInfinity := by rw [List.getElem?_eq_getElem hlt, hscore]
  rw [takesBest, Bool.or_eq_false_iff] at hdraws
  rw [scale_minusInfinity hi hdraws.2, Option.some.injEq] at hy
  exact hne hy.symm

/-! ### Masked scores -/

/-- A masked score is the score of a token of the mask, or it is negative infinity. -/
theorem masked_cases {mask : TokenMask} {i : Nat} {y : Float32} (h : (mask.apply scores)[i]? = some y) :
    ∃ x, scores[i]? = some x ∧ (i.toUInt32 ∈ mask ∧ y = x ∨ i.toUInt32 ∉ mask ∧ y = minusInfinity) := by
  have hlt : i < scores.length := by
    have hbound := (List.getElem?_eq_some_iff.mp h).1
    rwa [TokenMask.length_apply] at hbound
  refine ⟨scores[i], List.getElem?_eq_getElem hlt, ?_⟩
  rw [TokenMask.getElem?_apply (List.getElem?_eq_getElem hlt), Option.some.injEq] at h
  by_cases hmem : i.toUInt32 ∈ mask
  · have hin : mask.contains i.toUInt32 = true := hmem
    rw [hin] at h
    exact Or.inl ⟨hmem, h.symm⟩
  · have hout : mask.contains i.toUInt32 = false := by rwa [Bool.eq_false_iff]
    rw [hout] at h
    exact Or.inr ⟨hmem, h.symm⟩

/-- A token whose score is not negative infinity is in the mask. -/
theorem mem_mask_of_ne {mask : TokenMask} {i : Nat} {y : Float32} (h : (mask.apply scores)[i]? = some y)
    (hy : y ≠ minusInfinity) : i.toUInt32 ∈ mask := by
  obtain ⟨x, -, ⟨hmem, -⟩ | ⟨-, hmasked⟩⟩ := masked_cases h
  · exact hmem
  · exact absurd hmasked hy

/-- No permitted score is above negative infinity. -/
def Unscored (mask : TokenMask) (scores : List Float32) : Prop :=
  ∀ (i : Nat) (x : Float32), scores[i]? = some x → i.toUInt32 ∈ mask → x.isNaN = true ∨ x = minusInfinity

/-- Masked scores are above negative infinity only where permitted ones are. -/
theorem forall_masked_iff {mask : TokenMask} :
    (∀ y ∈ mask.apply scores, ¬ minusInfinity < y) ↔ Unscored mask scores := by
  simp only [minusInfinity_lt_iff, not_not]
  constructor
  · intro hmasked i x hx hmem
    have hin : mask.contains i.toUInt32 = true := hmem
    have hi : (mask.apply scores)[i]? = some x := by rw [TokenMask.getElem?_apply hx, hin, if_pos rfl]
    exact hmasked x (List.mem_of_getElem? hi)
  · intro hscores y hy
    obtain ⟨i, hi⟩ := List.mem_iff_getElem?.mp hy
    obtain ⟨x, hx, ⟨hmem, rfl⟩ | ⟨-, hmasked⟩⟩ := masked_cases hi
    · exact hscores i y hx hmem
    · exact Or.inr hmasked

/-- The best one of some masked scores is that of a token outside the mask if the first token is masked and no
permitted score is above negative infinity. -/
theorem best_masked_iff {mask : TokenMask} {first : Float32} {rest : List Float32}
    (hmasked : mask.apply scores = first :: rest) :
    best first rest = token ∧ token ∉ mask ↔ token = 0 ∧ (0 : TokenId) ∉ mask ∧ Unscored mask scores := by
  have hlead : (0 : TokenId) ∉ mask → first = minusInfinity := by
    intro hout
    by_contra hne
    exact hout (mem_mask_of_ne (i := 0) (by rw [hmasked]; rfl) hne)
  have hunscored : Unscored mask scores ↔ ¬ minusInfinity < first ∧ ∀ y ∈ rest, ¬ minusInfinity < y := by
    rw [← forall_masked_iff, hmasked, List.forall_mem_cons]
  rw [hunscored]
  constructor
  · rintro ⟨rfl, hout⟩
    rcases bestFrom_eq_or 0 first 1 rest with ⟨hplace, hrest⟩ | ⟨i, y, beaten, hplace, hi, hbeaten⟩
    · rw [best, hplace] at hout ⊢
      rw [hlead hout] at hrest ⊢
      exact ⟨rfl, hout, not_lt_minusInfinity, hrest⟩
    · -- What beats another score is not negative infinity.
      have hne : y ≠ minusInfinity := by
        rintro rfl
        exact not_lt_minusInfinity hbeaten
      have hy : (mask.apply scores)[1 + i]? = some y := by
        rw [hmasked, Nat.add_comm, List.getElem?_cons_succ, hi]
      rw [best, hplace] at hout
      exact absurd (mem_mask_of_ne hy hne) hout
  · rintro ⟨rfl, hout, -, hrest⟩
    rw [hlead hout, best, bestFrom_of_not_lt 0 1 hrest]
    exact ⟨rfl, hout⟩

/-- A token outside the mask is chosen in one case: it is the first token, the best score wins, and every
permitted token scores negative infinity or no number. -/
theorem sample_masked_iff {mask : TokenMask} (h : ∃ id ∈ mask, id.toNat < scores.length) (p : SamplingParams)
    (g : Random.Generator) (token : TokenId) :
    ((sampler p).sample g (mask.apply scores)).2 = .ok token ∧ token ∉ mask ↔
      token = 0 ∧ (0 : TokenId) ∉ mask ∧ takesBest p (mask.apply scores) = true ∧
        ∀ (i : Nat) (x : Float32), scores[i]? = some x → i.toUInt32 ∈ mask → x.isNaN = true ∨ x = minusInfinity := by
  obtain ⟨first, rest, hmasked⟩ : ∃ first rest, mask.apply scores = first :: rest := by
    apply List.exists_cons_of_length_pos
    obtain ⟨id, -, hlt⟩ := h
    rw [TokenMask.length_apply]
    omega
  cases htakes : takesBest p (mask.apply scores) with
  | false =>
    simp only [Bool.false_eq_true, false_and, and_false, iff_false]
    rintro ⟨hsample, hout⟩
    obtain ⟨i, y, hy, hne, rfl⟩ := score_ne_of_draw htakes hsample
    exact hout (mem_mask_of_ne hy hne)
  | true =>
    rw [hmasked] at htakes
    rw [hmasked, sample_cons, if_pos htakes, Except.ok.injEq, best_masked_iff hmasked, Unscored]
    simp only [true_and]

def secondOfTwo : TokenMask := .ofList 2 [1]

/-- The second token scores, and no token outside its mask is chosen, although the first one scored more. -/
theorem sample_masked_iff_second :
    (∃ id ∈ secondOfTwo, id.toNat < ([5, 1] : List Float32).length) ∧
      ((sampler .greedy).sample (generator .greedy) (secondOfTwo.apply [5, 1])).2 = .ok 1 ∧
      ∀ g token, ((sampler .greedy).sample g (secondOfTwo.apply [5, 1])).2 = .ok token → token ∈ secondOfTwo := by
  have hwide : ∃ id ∈ secondOfTwo, id.toNat < ([5, 1] : List Float32).length := ⟨1, by decide, by decide⟩
  refine ⟨hwide, by decide, ?_⟩
  intro g token hsample
  by_contra hout
  obtain ⟨-, -, -, hscores⟩ := (sample_masked_iff hwide .greedy g token).mp ⟨hsample, hout⟩
  have hsecond := hscores 1 1 rfl (by decide)
  exact absurd hsecond (by decide)

/-- The mask permits the second token alone. Where that one scores negative infinity the best score is that of the
first token, which is chosen at temperature zero; where its score is no number, the same happens at any
temperature. -/
theorem sample_outside_mask :
    (1 : TokenId) ∈ secondOfTwo ∧ (0 : TokenId) ∉ secondOfTwo ∧
      ((sampler .greedy).sample (generator .greedy) (secondOfTwo.apply [5, minusInfinity])).2 = .ok 0 ∧
      ((sampler {}).sample (generator {}) (secondOfTwo.apply [5, Float32.ofBits 0x7FC00000])).2 = .ok 0 := by
  refine ⟨by decide, by decide, by decide, ?_⟩
  decide +kernel

end Sampling
end GuidedDecoding
