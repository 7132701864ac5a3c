import GuidedDecoding.Proofs.Sampling.Finite
import GuidedDecoding.Proofs.Sampling.Ranking

/-!
# The candidates of a sampler

A share of a softmax is finite and not negative, or it is no number (`probability_cases`): a score that is no number
makes all shares so, and a best score that is infinite does too.

Of the ranked places a count keeps the first ones, and then a sum keeps as many as it needs to reach `topP`. It is added
up in single precision, in their order (`sumOf`), and it grows from place to place only as far as rounding lets it; but
it is a number all the way, so that a sum that does not reach `topP` is below it. What is left of the places has the
properties of `Leaves`, whatever the parameters are and whether or not the shares come from scores
(`candidates_of_shares`).
-/

namespace GuidedDecoding
namespace Sampling

open Single

variable {p : SamplingParams} {shares scaled : List Float32} {places kept cut : List ℕ} {x y : Float32} {i j : ℕ}

/-! ### Shares of a softmax -/

/-- Where positive infinity is one of the scores and all are numbers, it is the greatest one. -/
theorem foldl_better_plusInfinity {lead : Float32} (hnumber : ∀ y ∈ lead :: scaled, y.isNaN = false)
    (hmem : plusInfinity ∈ lead :: scaled) : scaled.foldl better lead = plusInfinity := by
  -- the leading score is replaced as soon as a greater one is met, and none is greater than infinity
  induction scaled generalizing lead with
  | nil => exact (List.mem_singleton.mp hmem).symm
  | cons y rest ih =>
    rw [List.foldl_cons]
    have hlead := hnumber lead List.mem_cons_self
    have hrest : ∀ z ∈ rest, z.isNaN = false := fun z hz =>
      hnumber z (List.mem_cons_of_mem _ (List.mem_cons_of_mem _ hz))
    have hy := hnumber y (List.mem_cons_of_mem _ List.mem_cons_self)
    apply ih
    · rw [List.forall_mem_cons]
      refine ⟨?_, hrest⟩
      rcases better_eq_or lead y with h | h <;> rw [h] <;> assumption
    · rcases List.mem_cons.mp hmem with rfl | hmem
      · rw [better, if_neg not_plusInfinity_lt]
        exact List.mem_cons_self
      · rcases List.mem_cons.mp hmem with rfl | hmem
        · by_cases hsame : lead = plusInfinity
          · rw [better, hsame, ite_self]
            exact List.mem_cons_self
          · rw [better, if_pos (lt_plusInfinity hlead hsame)]
            exact List.mem_cons_self
        · exact List.mem_cons_of_mem _ hmem

/-- A weight that is no number makes all shares so. -/
theorem isNaN_of_weight {first : Float32} {rest : List Float32} (h : ∃ w ∈ weights first rest, w.isNaN = true)
    (hx : x ∈ probabilities (first :: rest)) : x.isNaN = true := by
  rw [probabilities_cons] at hx
  obtain ⟨w, -, rfl⟩ := List.mem_map.mp hx
  exact isNaN_div (isNaN_foldl_add (Or.inr h))

/-- Where all weights are numbers, the greatest score is finite, and no score is above it. -/
theorem scored_of_weights {first : Float32} {rest : List Float32} (h : ∀ w ∈ weights first rest, w.isNaN = false) :
    (∀ y ∈ first :: rest, Scored y) ∧ (rest.foldl better first).isFinite = true := by
  have hnumber (y : Float32) (hy : y ∈ first :: rest) : ¬ (y - rest.foldl better first).isNaN = true := by
    intro hnan
    have hweight := h _ (List.mem_map.mpr ⟨y, hy, rfl⟩)
    rw [exponential_of_isNaN hnan, hnan] at hweight
    cases hweight
  have htop : (rest.foldl better first).isFinite = true := by
    by_contra hinfinite
    exact hnumber _ (foldl_better_mem first rest) (isNaN_sub_self (Bool.eq_false_iff.mpr hinfinite))
  have hscores : ∀ y ∈ first :: rest, y.isNaN = false := by
    intro y hy
    by_contra hnan
    exact hnumber y hy (isNaN_sub (Or.inl ((Bool.not_eq_false _).mp hnan)))
  refine ⟨fun y hy => ?_, htop⟩
  by_cases hminus : y = minusInfinity
  · exact Or.inr hminus
  · refine Or.inl (isFinite_of_ne (hscores y hy) ?_ hminus)
    rintro rfl
    rw [foldl_better_plusInfinity hscores hy] at htop
    exact absurd htop (by decide)

/-- A share of a softmax is no number, or it is finite and not negative. -/
theorem probability_cases (h : x ∈ probabilities scaled) : x.isNaN = true ∨ 0 ≤ x ∧ x.isFinite = true := by
  cases scaled with
  | nil => cases h
  | cons first rest =>
    by_cases hnan : ∃ w ∈ weights first rest, w.isNaN = true
    · exact Or.inl (isNaN_of_weight hnan h)
    right
    push Not at hnan
    obtain ⟨hall, htop⟩ := scored_of_weights fun w hw => Bool.eq_false_iff.mpr (hnan w hw)
    obtain ⟨-, hweights, hsum⟩ := between_weights hall ⟨_, foldl_better_mem first rest, htop⟩
    rw [probabilities_cons] at h
    obtain ⟨w, hw, rfl⟩ := List.mem_map.mp h
    obtain ⟨v, hv, hpos, -⟩ := between_share (hweights w hw) hsum
    exact ⟨(le_iff_of_rational rfl hv).mpr hpos, isFinite_iff.mpr ⟨v, hv⟩⟩

/-- A positive share of a softmax can be drawn. -/
theorem drawable_of_probability (h : x ∈ probabilities scaled) (hpos : 0 < x) : Drawable x := by
  refine ⟨hpos, ?_⟩
  rcases probability_cases h with hnan | ⟨-, hfinite⟩
  · rw [(not_isNaN_of_lt hpos).2] at hnan
    cases hnan
  · exact hfinite

/-! ### Cutting -/

/-- The sum of the shares at some places, added up in their order. -/
def sumOf (shares : List Float32) (places : List ℕ) : Float32 := (places.map (share shares)).foldl (· + ·) 0

def firstOf (p : SamplingParams) (places : List ℕ) : List ℕ := if 0 < p.topK then places.take p.topK else places

/-- What a count leaves are the entries of the first places. -/
theorem counted_eq (p : SamplingParams) (shares : List Float32) :
    counted p shares = (firstOf p (rankedPlaces shares)).map (entry shares) := by
  rw [counted, firstOf, ranked_eq]
  split
  · rw [List.map_take]
  · rfl

/-- Without its last candidate the head does not come to the bound. -/
theorem headShare_below (bound sum : Float32) (cs : List Candidate) (h : 1 < (headShare bound sum cs).length) :
    ¬ bound ≤ ((headShare bound sum cs).dropLast.map (·.probability)).foldl (· + ·) sum := by
  induction cs generalizing sum with
  | nil => exact absurd h (by simp [headShare])
  | cons c rest ih =>
    rw [headShare] at h ⊢
    split at h
    · simp at h
    · next hbelow =>
      rw [if_neg hbelow]
      have hne : headShare bound (sum + c.probability) rest ≠ [] := by
        intro hnil
        simp [hnil] at h
      rw [List.dropLast_cons_of_ne_nil hne, List.map_cons, List.foldl_cons]
      rcases Nat.lt_or_ge 1 (headShare bound (sum + c.probability) rest).length with hlong | hshort
      · exact ih _ hlong
      · have hlast : (headShare bound (sum + c.probability) rest).dropLast = [] := by
          rw [← List.length_eq_zero_iff, List.length_dropLast]
          omega
        rw [hlast]
        exact hbelow

/-- With it the head does, unless all candidates are in it. -/
theorem headShare_reaches (bound sum : Float32) (cs : List Candidate) :
    headShare bound sum cs = cs ∨ bound ≤ ((headShare bound sum cs).map (·.probability)).foldl (· + ·) sum := by
  induction cs generalizing sum with
  | nil => exact Or.inl rfl
  | cons c rest ih =>
    rw [headShare]
    split
    · next hreaches => exact Or.inr hreaches
    · rcases ih (sum + c.probability) with hall | hreaches
      · exact Or.inl (by rw [hall])
      · exact Or.inr hreaches

theorem sumOf_eq (shares : List Float32) (places : List ℕ) :
    ((places.map (entry shares)).map (·.probability)).foldl (· + ·) 0 = sumOf shares places := by
  rw [List.map_map]
  rfl

/-- A sum of shares that can be drawn is a number. -/
theorem not_isNaN_sumOf (h : ∀ i ∈ places, (share shares i).isFinite = true) : (sumOf shares places).isNaN = false := by
  have hsum (sum : Float32) (hnumber : sum.isNaN = false) :
      ((places.map (share shares)).foldl (· + ·) sum).isNaN = false := by
    induction places generalizing sum with
    | nil => exact hnumber
    | cons i rest ih =>
      rw [List.forall_mem_cons] at h
      exact ih h.2 _ (not_isNaN_add hnumber h.1)
  exact hsum 0 (by decide)

/-! ### What is left -/

/-- What the parameters leave of the ranked places, and what they cut. -/
structure Leaves (p : SamplingParams) (shares : List Float32) (kept cut : List ℕ) : Prop where
  ranks : Ranks shares (kept ++ cut)
  count : 0 < p.topK → kept.length ≤ p.topK
  /-- Nothing is left only where there is nothing. -/
  nothing : kept = [] → ∀ x ∈ shares, ¬ Drawable x
  greatest : ∀ i ∈ kept, ∀ j, j ∉ kept → Drawable (share shares j) → share shares j ≤ share shares i
  /-- Without the last place the sum does not reach the bound. -/
  below : p.topP < 1 → 1 < kept.length → sumOf shares kept.dropLast < p.topP
  /-- With the last place it does, or the sum has cut nothing. -/
  reaches : kept = firstOf p (kept ++ cut) ∨ p.topP < 1 ∧ p.topP ≤ sumOf shares kept

theorem isPrefix_firstOf (p : SamplingParams) (places : List ℕ) : firstOf p places <+: places := by
  rw [firstOf]
  split
  · exact List.take_prefix _ _
  · exact List.prefix_rfl

theorem length_firstOf (hcount : 0 < p.topK) (places : List ℕ) : (firstOf p places).length ≤ p.topK := by
  rw [firstOf, if_pos hcount]
  exact List.length_take_le _ _

/-- The candidates are those of the first places that the count keeps. -/
theorem exists_kept (p : SamplingParams) (shares : List Float32) :
    ∃ kept, kept <+: firstOf p (rankedPlaces shares) ∧ choice p shares = kept.map (entry shares) := by
  have hbegins := List.prefix_iff_eq_take.mp (isPrefix_choice_counted p shares)
  rw [counted_eq, ← List.map_take] at hbegins
  exact ⟨_, List.take_prefix _ _, hbegins⟩

/-- A place that is kept has no less a share than one that is cut. -/
theorem Ranks.le (h : Ranks shares (kept ++ cut)) (hi : i ∈ kept) (hj : j ∈ cut) : share shares j ≤ share shares i := by
  have hprecedes := (List.pairwise_append.mp h.ordered).2.2 i hi j hj
  have hi' := h.drawable (List.mem_append_left cut hi)
  have hj' := h.drawable (List.mem_append_right kept hj)
  rw [precedes_iff hi' hj'] at hprecedes
  rw [le_iff_worth hj'.2 hi'.2]
  rcases hprecedes with hlt | ⟨heq, -⟩
  · exact hlt.le
  · exact heq.ge

theorem headShare_counted (htopP : p.topP < 1) (hchoice : choice p shares = kept.map (entry shares)) :
    headShare p.topP 0 (counted p shares) = kept.map (entry shares) := by
  rw [← hchoice, choice, if_pos htopP]

/-- What is kept would not come to `topP` without its last place. -/
theorem sumOf_dropLast_lt (hchoice : choice p shares = kept.map (entry shares)) (htopP : p.topP < 1)
    (hlong : 1 < kept.length) (hfinite : ∀ i ∈ kept, (share shares i).isFinite = true) :
    sumOf shares kept.dropLast < p.topP := by
  have hshare := headShare_counted htopP hchoice
  have hbelow := headShare_below p.topP 0 (counted p shares) (by rw [hshare, List.length_map]; exact hlong)
  rw [hshare, ← List.map_dropLast, sumOf_eq] at hbelow
  apply (not_le_iff (not_isNaN_of_lt htopP).1 (not_isNaN_sumOf ?_)).mp hbelow
  exact fun i hi => hfinite i (List.mem_of_mem_dropLast hi)

/-- All that the count keeps is kept, or what is kept comes to `topP`. -/
theorem eq_firstOf_or_reaches (hcounted : counted p shares = (firstOf p places).map (entry shares))
    (hbegins : kept <+: firstOf p places) (hchoice : choice p shares = kept.map (entry shares)) :
    kept = firstOf p places ∨ p.topP < 1 ∧ p.topP ≤ sumOf shares kept := by
  have hall (h : counted p shares = kept.map (entry shares)) : kept = firstOf p places := by
    apply hbegins.eq_of_length
    rw [hcounted] at h
    simpa using (congrArg List.length h).symm
  by_cases htopP : p.topP < 1
  · have hshare := headShare_counted htopP hchoice
    rcases headShare_reaches p.topP 0 (counted p shares) with hsame | hreaches
    · exact Or.inl (hall (hsame.symm.trans hshare))
    · rw [hshare, sumOf_eq] at hreaches
      exact Or.inr ⟨htopP, hreaches⟩
  · rw [choice, if_neg htopP] at hchoice
    exact Or.inl (hall hchoice)

theorem leaves_of_choice (hplaces : rankedPlaces shares = kept ++ cut) (hbegins : kept <+: firstOf p (kept ++ cut))
    (hchoice : choice p shares = kept.map (entry shares)) : Leaves p shares kept cut := by
  have hranks : Ranks shares (kept ++ cut) := hplaces ▸ ranks_rankedPlaces shares
  constructor
  case ranks => exact hranks
  case count => exact fun hcount => hbegins.length_le.trans (length_firstOf hcount _)
  case nothing =>
    rintro rfl x hx ⟨hpos, hfinite⟩
    exact choice_ne_nil p (ranked_ne_nil hx hpos hfinite) hchoice
  case greatest =>
    intro i hi j hj hdrawable
    have hmem : j ∈ kept ++ cut := (hranks.mem_iff j).mpr (drawable_share_iff.mp hdrawable)
    exact hranks.le hi ((List.mem_append.mp hmem).resolve_left hj)
  case below =>
    intro htopP hlong
    exact sumOf_dropLast_lt hchoice htopP hlong fun i hi => (hranks.drawable (List.mem_append_left cut hi)).2
  case reaches => exact eq_firstOf_or_reaches (by rw [counted_eq, hplaces]) hbegins hchoice

/-- A draw fails for want of candidates only, and gives one of them otherwise. -/
theorem draw_cases (g : Random.Generator) (h : candidates p scaled = kept.map (entry shares)) :
    (kept = [] ∧ (draw g (candidates p scaled)).2 = .error (.sampling .noCandidate)) ∨
      ∃ i ∈ kept, (draw g (candidates p scaled)).2 = .ok i.toUInt32 := by
  rw [h]
  cases kept with
  | nil => exact Or.inl ⟨rfl, rfl⟩
  | cons i rest =>
    right
    have hne : (i :: rest).map (entry shares) ≠ [] := List.cons_ne_nil _ _
    obtain ⟨token, htoken⟩ := exists_draw_eq_ok g hne
    obtain ⟨c, hc, rfl⟩ := exists_mem_of_draw htoken
    obtain ⟨j, hj, rfl⟩ := List.mem_map.mp hc
    exact ⟨j, hj, htoken⟩

/-- Of any shares the candidates are the first ones in the ranking of those that can be drawn, of which there is one:
the parameters leave them as `Leaves` says. If the shares are a softmax, no number or finite and not negative, every
positive one that is left out is at most as great as each one that is kept. A sampler that draws from them gives one of
the kept places, or there is none. -/
theorem candidates_of_shares (p : SamplingParams) (shares : List Float32) :
    ∃ kept cut, Leaves p shares kept cut ∧ (∀ places, Ranks shares places → places = kept ++ cut) ∧
      choice p shares = kept.map (entry shares) ∧
      (∀ scaled, probabilities scaled = shares → candidates p scaled = kept.map (entry shares) ∧
        (∀ x ∈ shares, x.isNaN = true ∨ 0 ≤ x ∧ x.isFinite = true) ∧
        ∀ i ∈ kept, ∀ (j : ℕ) (x : Float32), shares[j]? = some x → 0 < x → j ∉ kept → x ≤ share shares i) ∧
      ∀ g scores, scores ≠ [] → takesBest p scores = false → probabilities (scale p.temperature scores) = shares →
        (kept = [] ∧ ((sampler p).sample g scores).2 = .error (.sampling .noCandidate)) ∨
          ∃ i ∈ kept, ((sampler p).sample g scores).2 = .ok i.toUInt32 := by
  obtain ⟨kept, hbegins, hchoice⟩ := exists_kept p shares
  obtain ⟨cut, hplaces⟩ := hbegins.trans (isPrefix_firstOf p _)
  rw [← hplaces] at hbegins
  have hleaves : Leaves p shares kept cut := leaves_of_choice hplaces.symm hbegins hchoice
  refine ⟨kept, cut, hleaves, fun places h => hleaves.ranks.unique h, hchoice, ?_, ?_⟩
  · rintro scaled rfl
    refine ⟨by rw [candidates_eq_choice, hchoice], fun x hx => probability_cases hx, ?_⟩
    intro i hi j x hj hpos hout
    have hshare := share_of_getElem? hj
    have hdrawable := drawable_of_probability (List.mem_of_getElem? hj) hpos
    rw [← hshare] at hdrawable ⊢
    exact hleaves.greatest i hi j hout hdrawable
  · rintro g scores hne hdraws rfl
    obtain ⟨first, rest, rfl⟩ := List.exists_cons_of_ne_nil hne
    rw [sample_cons, if_neg (by rw [hdraws]; exact Bool.false_ne_true)]
    exact draw_cases g (by rw [candidates_eq_choice, hchoice])

def quarters : List Float32 :=
  [Float32.ofBits 0x3E800000, Float32.ofBits 0x3F000000, Float32.ofBits 0x3E800000, Float32.ofBits 0x7FC00000]

theorem ranks_quarters : Ranks quarters [1, 0, 2] where
  mem_iff i := by
    rw [← drawable_share_iff]
    rcases Nat.lt_or_ge i 4 with hi | hi
    · interval_cases i <;> decide
    · have hbehind : ¬ Drawable (share quarters i) := by
        rw [share, List.getElem?_eq_none hi]
        decide
      simp only [hbehind, iff_false, List.mem_cons, List.not_mem_nil, or_false]
      omega
  ordered := by decide

/-- Three quarters are reached, and not exceeded, by the half and the first quarter. -/
theorem candidates_of_shares_quarters :
    Leaves { topP := Float32.ofBits 0x3F400000 } quarters [1, 0] [2] ∧
      choice { topP := Float32.ofBits 0x3F400000 } quarters = [entry quarters 1, entry quarters 0] := by
  obtain ⟨kept, cut, hleaves, hunique, hchoice, -⟩ :=
    candidates_of_shares { topP := Float32.ofBits 0x3F400000 } quarters
  have hplaces := hunique _ ranks_quarters
  have hkept : kept ∈ List.inits [1, 0, 2] := (List.mem_inits _ _).mpr ⟨cut, hplaces.symm⟩
  rw [show List.inits [1, 0, 2] = [[], [1], [1, 0], [1, 0, 2]] from rfl] at hkept
  simp only [List.mem_cons, List.not_mem_nil, or_false] at hkept
  rcases hkept with rfl | rfl | rfl | rfl
  · have hhalf : Float32.ofBits 0x3F000000 ∈ quarters := List.mem_of_getElem? (i := 1) rfl
    exact absurd (by decide) (hleaves.nothing rfl _ hhalf)
  · obtain rfl : [0, 2] = cut := by simpa using hplaces
    exact absurd hleaves.reaches (by decide)
  · obtain rfl : [2] = cut := by simpa using hplaces
    exact ⟨hleaves, hchoice⟩
  · exact absurd (hleaves.below (by decide) (by decide)) (by decide)

end Sampling
end GuidedDecoding
