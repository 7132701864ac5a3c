import GuidedDecoding.Proofs.Number.Exponential
import GuidedDecoding.Proofs.Sampling

/-!
# The weights of scores

Scores have levels, of which negative infinity has the lowest (`level`), and the greatest score has the highest
(`level_le_foldl_better`). Every weight is a number from zero to four, that of the greatest score is one, and so their
sum is at least one (`between_weights`). Nor does it overflow, however many there are: from `2 ^ 27` on weights are too
small to change it (`between_add_weight`). Where a score is finite, then, some score has a share that can be drawn
(`exists_share`).
-/

namespace GuidedDecoding

open Rounding

namespace Single

variable {w total : Float32} {a b q lo : ℚ}

/-- From `2 ^ 27` on, singles are at least sixteen apart. -/
theorem le_of_grid (h : Grid .binary32 q) (hlt : q < 2 ^ 27 + 16) : q ≤ 2 ^ 27 := by
  obtain ⟨n, e, hn, -, rfl⟩ := h
  by_contra! hgt
  rcases le_or_gt 4 e with he | he
  · obtain ⟨d, rfl⟩ := Int.le.dest he
    rw [zpow_add₀ two_ne_zero, zpow_natCast] at hlt hgt
    have hlow : (2 : ℤ) ^ 23 < n * 2 ^ d := by
      have : ((2 : ℤ) ^ 23 : ℚ) < n * 2 ^ d := by norm_num at hgt ⊢; linarith
      exact_mod_cast this
    have hhigh : (n * 2 ^ d : ℤ) < 2 ^ 23 + 1 := by
      have : (n * 2 ^ d : ℚ) < 2 ^ 23 + 1 := by norm_num at hlt ⊢; linarith
      exact_mod_cast this
    omega
  · have hmantissa : (n : ℚ) ≤ 2 ^ 24 := by
      have : n ≤ 2 ^ 24 := (le_abs_self n).trans hn.le
      exact_mod_cast this
    have hunit : (2 : ℚ) ^ e ≤ 2 ^ (3 : ℤ) := zpow_le_zpow_right₀ one_le_two (by omega)
    have : (n * 2 ^ e : ℚ) ≤ 2 ^ 24 * 2 ^ (3 : ℤ) := by gcongr
    norm_num at this hgt
    linarith

/-- A sum of weights stops growing at `2 ^ 27`. -/
theorem between_add_weight (htotal : Between a (2 ^ 27) (exactValue total))
    (hw : Between b 4 (exactValue w)) (hlo : Representable .binary32 lo) (hle : lo ≤ a + b) :
    Between lo (2 ^ 27) (exactValue (total + w)) := by
  obtain ⟨p, hp, hplow, hphigh⟩ := htotal
  obtain ⟨q, hq, hqlow, hqhigh⟩ := hw
  have hgreat : Representable .binary32 (2 ^ 28) := ⟨1, 28, by decide, by decide, by decide, by norm_num⟩
  have hfull : Grid .binary32 (2 ^ 27) := ⟨1, 27, by decide, by decide, by norm_num⟩
  have hrounds := rounds_add (canonical_exactValue total) (canonical_exactValue w) hp hq
  have hstays := hrounds.stored_eq hlo hgreat (by linarith) (by linarith)
  obtain ⟨-, v, hv, hnear⟩ := hrounds
  refine ⟨v, by rw [← hv, ← hstays]; rfl, hnear.ge hlo.grid (by linarith), ?_⟩
  rcases le_or_gt (p + q) (2 ^ 27) with hbelow | habove
  · exact hnear.le hfull hbelow
  · have hdistance := hnear.le_abs (2 ^ 27) hfull
    rw [abs_of_neg (sub_neg.mpr habove)] at hdistance
    exact le_of_grid hnear.grid (by linarith [le_abs_self (v - (p + q))])

/-- However many weights are added, their sum does not pass `2 ^ 27`. -/
theorem between_sum {weights : List Float32} (hweights : ∀ w ∈ weights, Between 0 4 (exactValue w))
    (hlo : Representable .binary32 lo) (htotal : Between lo (2 ^ 27) (exactValue total)) :
    Between lo (2 ^ 27) (exactValue (weights.foldl (· + ·) total)) := by
  induction weights generalizing total with
  | nil => exact htotal
  | cons w weights ih =>
    rw [List.forall_mem_cons] at hweights
    rw [List.foldl_cons]
    exact ih hweights.2 (between_add_weight htotal hweights.1 hlo (by rw [add_zero]))

/-- A sum of weights of which one is one. -/
theorem between_sum_of_one_mem {weights : List Float32} (hweights : ∀ w ∈ weights, Between 0 4 (exactValue w))
    (hone : 1 ∈ weights) (htotal : Between 0 (2 ^ 27) (exactValue total)) :
    Between 1 (2 ^ 27) (exactValue (weights.foldl (· + ·) total)) := by
  have hzero : Representable .binary32 0 := representable_int 0 (by norm_num) (by norm_num)
  have hunit : Representable .binary32 1 := representable_int 1 (by norm_num) (by norm_num)
  induction weights generalizing total with
  | nil => cases hone
  | cons w weights ih =>
    rw [List.forall_mem_cons] at hweights
    rw [List.foldl_cons]
    rcases List.mem_cons.mp hone with rfl | hrest
    · have hw : Between 1 4 (exactValue 1) :=
        ⟨((2 ^ 23 : ℕ) : ℚ) * 2 ^ (-23 : ℤ), rfl, by norm_num, by norm_num⟩
      exact between_sum hweights.2 hunit (between_add_weight htotal hw hunit (by rw [zero_add]))
    · exact ih hweights.2 hrest (between_add_weight htotal hweights.1 hzero (by rw [add_zero]))

/-- One in so many is a positive number. -/
theorem share_of_one (htotal : Between 1 (2 ^ 27) (exactValue total)) :
    0 < 1 / total ∧ (1 / total).isFinite = true := by
  obtain ⟨t, ht, hlow, hhigh⟩ := htotal
  have hone : rational? (exactValue 1) = some 1 := by
    have hvalue : rational? (exactValue 1) = some (((2 ^ 23 : ℕ) : ℚ) * 2 ^ (-23 : ℤ)) := rfl
    rw [hvalue]
    norm_num
  have hleast : Representable .binary32 (1 / 2 ^ 27) := ⟨1, -27, by decide, by decide, by decide, by norm_num⟩
  have hunit : Representable .binary32 1 := representable_int 1 (by norm_num) (by norm_num)
  have hpos : 0 < t := by linarith
  obtain ⟨v, hv, hvlow, -⟩ : Between (1 / 2 ^ 27) 1 (exactValue (1 / total)) :=
    (rounds_div (F := .binary32) hone ht hpos.ne').between hleast hunit
      (one_div_le_one_div_of_le hpos hhigh) ((div_le_one hpos).mpr hlow)
  refine ⟨(lt_iff_of_rational rfl hv).mpr ?_, isFinite_iff.mpr ⟨v, hv⟩⟩
  have hleast' : (0 : ℚ) < 1 / 2 ^ 27 := by positivity
  linarith

/-- A share is finite and not negative. -/
theorem between_share (hw : Between 0 4 (exactValue w)) (htotal : Between 1 (2 ^ 27) (exactValue total)) :
    Between 0 4 (exactValue (w / total)) := by
  obtain ⟨q, hq, hqlow, hqhigh⟩ := hw
  obtain ⟨t, ht, hlow, -⟩ := htotal
  have hpos : 0 < t := by linarith
  have hzero : Representable .binary32 0 := representable_int 0 (by norm_num) (by norm_num)
  have hfour : Representable .binary32 4 := representable_int 4 (by norm_num) (by norm_num)
  exact (rounds_div (F := .binary32) hq ht hpos.ne').between hzero hfour (div_nonneg hqlow hpos.le)
    ((div_le_self hqlow hlow).trans hqhigh)

end Single

namespace Sampling

open Single

variable {scores : List Float32} {lead x y : Float32}

/-- A score that is finite, or negative infinity as that of a masked token. -/
def Scored (x : Float32) : Prop := x.isFinite = true ∨ x = minusInfinity

def level (x : Float32) : WithBot ℚ := rational? (exactValue x)

theorem level_minusInfinity : level minusInfinity = ⊥ := rfl

theorem Scored.cases (h : Scored x) : x = minusInfinity ∨ ∃ q : ℚ, rational? (exactValue x) = some q :=
  h.symm.imp_right isFinite_iff.mp

/-- Scores are ordered by their levels. -/
theorem lt_iff_level (hx : Scored x) (hy : Scored y) : x < y ↔ level x < level y := by
  rcases hy.cases with rfl | ⟨q, hq⟩
  · rw [level_minusInfinity]
    exact iff_of_false not_lt_minusInfinity not_lt_bot
  · have hlevel : level y = (q : ℚ) := hq
    rw [hlevel]
    rcases hx.cases with rfl | ⟨p, hp⟩
    · rw [level_minusInfinity]
      exact iff_of_true (minusInfinity_lt_of_isFinite (isFinite_iff.mpr ⟨q, hq⟩)) (WithBot.bot_lt_coe q)
    · have hlevel' : level x = (p : ℚ) := hp
      rw [hlevel', WithBot.coe_lt_coe, lt_iff_of_rational hp hq]

/-- The better score is the higher one. -/
theorem level_better (hx : Scored x) (hy : Scored y) : level (better x y) = max (level x) (level y) := by
  rw [better]
  split
  · next hlt => exact (max_eq_right ((lt_iff_level hx hy).mp hlt).le).symm
  · next hlt => exact (max_eq_left (not_lt.mp (mt (lt_iff_level hx hy).mpr hlt))).symm

/-- It is one of the two. -/
theorem better_eq_or (x y : Float32) : better x y = x ∨ better x y = y := by
  rw [better]
  split
  · exact Or.inr rfl
  · exact Or.inl rfl

/-- The greatest score is one of the scores. -/
theorem foldl_better_mem (lead : Float32) (scores : List Float32) : scores.foldl better lead ∈ lead :: scores := by
  induction scores generalizing lead with
  | nil => exact List.mem_cons_self
  | cons y rest ih =>
    rw [List.foldl_cons]
    rcases List.mem_cons.mp (ih (better lead y)) with htop | htop
    · rw [htop]
      rcases better_eq_or lead y with h | h <;> rw [h] <;> simp
    · exact List.mem_cons_of_mem _ (List.mem_cons_of_mem _ htop)

/-- No score is higher than the greatest one. -/
theorem level_le_foldl_better (hall : ∀ y ∈ lead :: scores, Scored y) :
    ∀ y ∈ lead :: scores, level y ≤ level (scores.foldl better lead) := by
  induction scores generalizing lead with
  | nil => exact List.forall_mem_singleton.mpr le_rfl
  | cons y rest ih =>
    obtain ⟨hlead, hy, hrest⟩ : Scored lead ∧ Scored y ∧ ∀ y ∈ rest, Scored y := by
      simpa [List.forall_mem_cons] using hall
    have hbetter : Scored (better lead y) := by
      rcases better_eq_or lead y with h | h <;> rw [h] <;> assumption
    have hle := ih (List.forall_mem_cons.mpr ⟨hbetter, hrest⟩)
    rw [List.foldl_cons]
    rw [List.forall_mem_cons, level_better hlead hy, max_le_iff] at hle
    exact List.forall_mem_cons.mpr ⟨hle.1.1, List.forall_mem_cons.mpr ⟨hle.1.2, hle.2⟩⟩

/-- What is not below a finite score is finite. -/
theorem exists_rational_of_le (hx : Scored x) (hy : y.isFinite = true) (hle : level y ≤ level x) :
    ∃ q, rational? (exactValue x) = some q := by
  obtain ⟨q, hq⟩ := isFinite_iff.mp hy
  rcases hx.cases with rfl | hnumber
  · have hlevel : level y = (q : ℚ) := hq
    rw [hlevel, level_minusInfinity] at hle
    exact absurd hle (not_le.mpr (WithBot.bot_lt_coe q))
  · exact hnumber

/-- The weight of a score that is not above a finite one. -/
theorem between_weight {q : ℚ} (hx : rational? (exactValue x) = some q) (hy : Scored y) (hle : level y ≤ level x) :
    Between 0 4 (exactValue (exponential (y - x))) := by
  apply between_exponential
  rcases hy.cases with rfl | ⟨p, hp⟩
  · exact Or.inl (minusInfinity_sub_finite hx)
  · have hbelow : (p : WithBot ℚ) ≤ (q : ℚ) := by
      have hlevel : level y = (p : ℚ) := hp
      have hlevel' : level x = (q : ℚ) := hx
      rwa [← hlevel, ← hlevel']
    exact sub_of_le hp hx (WithBot.coe_le_coe.mp hbelow)

def weights (first : Float32) (rest : List Float32) : List Float32 :=
  (first :: rest).map fun y => exponential (y - rest.foldl better first)

theorem probabilities_cons (first : Float32) (rest : List Float32) :
    probabilities (first :: rest) = (weights first rest).map (· / (weights first rest).foldl (· + ·) 0) := rfl

/-- Where a score is finite, the greatest one has the weight one, no weight is greater than four, and the sum of all is
a number. -/
theorem between_weights {first : Float32} {rest : List Float32} (hall : ∀ y ∈ first :: rest, Scored y)
    (hfinite : ∃ y ∈ first :: rest, y.isFinite = true) :
    1 ∈ weights first rest ∧ (∀ w ∈ weights first rest, Between 0 4 (exactValue w)) ∧
      Between 1 (2 ^ 27) (exactValue ((weights first rest).foldl (· + ·) 0)) := by
  obtain ⟨y, hy, hfinite⟩ := hfinite
  have hmem := foldl_better_mem first rest
  have hle := level_le_foldl_better hall
  obtain ⟨t, ht⟩ := exists_rational_of_le (hall _ hmem) hfinite (hle y hy)
  have hone : 1 ∈ weights first rest := by
    refine List.mem_map.mpr ⟨_, hmem, ?_⟩
    rw [sub_self_finite ht, exponential_zero]
  have hbetween : ∀ w ∈ weights first rest, Between 0 4 (exactValue w) := by
    intro w hw
    obtain ⟨y, hy, rfl⟩ := List.mem_map.mp hw
    exact between_weight ht (hall y hy) (hle y hy)
  have hzero : Between 0 (2 ^ 27) (exactValue 0) := ⟨0, rfl, le_rfl, by positivity⟩
  exact ⟨hone, hbetween, between_sum_of_one_mem hbetween hone hzero⟩

/-- Some score has a share that can be drawn. -/
theorem exists_share (hall : ∀ y ∈ scores, Scored y) (hfinite : ∃ y ∈ scores, y.isFinite = true) :
    ∃ share ∈ probabilities scores, 0 < share ∧ share.isFinite = true := by
  cases scores with
  | nil =>
    obtain ⟨y, hy, -⟩ := hfinite
    cases hy
  | cons first rest =>
    obtain ⟨hone, -, hsum⟩ := between_weights hall hfinite
    refine ⟨_, ?_, share_of_one hsum⟩
    rw [probabilities_cons]
    exact List.mem_map.mpr ⟨1, hone, rfl⟩

end Sampling

end GuidedDecoding
