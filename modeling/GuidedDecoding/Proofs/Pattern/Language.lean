import GuidedDecoding.Proofs.Pattern.Text
import GuidedDecoding.Proofs.Text.Character

/-!
# The languages of expressions

`Expr.Matches` says in the usual way which bytes an expression matches between two neighbours: a sequence
matches what falls into a match of each part, and a repetition what falls into so many matches. It speaks of
whole characters and does not look at single bytes.

What is left of an expression behind a byte matches what the expression matches with that byte in front
(`matches_cons`), so a walk is complete behind exactly the bytes that its expressions match
(`Walk.isComplete_run_iff`).
-/

namespace GuidedDecoding

namespace CharSet

/-- Between two points without an edge between them membership does not change. -/
theorem inside_eq {now : Bool} {edges : List Nat} {low n : Nat} (hlow : low ≤ n)
    (h : ∀ e ∈ edges, ¬ (low < e ∧ e ≤ n)) : inside now edges n = inside now edges low := by
  induction edges generalizing now with
  | nil => rfl
  | cons e edges ih =>
    rw [List.forall_mem_cons] at h
    unfold inside
    by_cases he : n < e
    · rw [if_pos he, if_pos (by omega)]
    · rw [if_neg he, if_neg (fun hlt => h.1 ⟨hlt, by omega⟩)]
      exact ih h.2

variable {s : CharSet} {low high n : Nat}

/-- A set meets a range that holds one of its points. -/
theorem meets_of_contains (hn : s.contains n = true) (hlow : low ≤ n) (hhigh : n ≤ high) :
    s.meets low high = true := by
  have hpoint : ∃ k, low ≤ k ∧ s.contains k = true := ⟨n, hlow, hn⟩
  -- The first of the points is the lowest of the range, or there is an edge at it.
  obtain ⟨hk, hmem⟩ := Nat.find_spec hpoint
  have hfirst {k : Nat} (h : k < Nat.find hpoint) : ¬ (low ≤ k ∧ s.contains k = true) := Nat.find_min hpoint h
  have hle : Nat.find hpoint ≤ n := Nat.find_min' hpoint ⟨hlow, hn⟩
  generalize Nat.find hpoint = k at hk hmem hfirst hle
  unfold meets
  rcases hk.eq_or_lt with rfl | hlt
  · rw [hmem, Bool.true_or]
  · have hedge : k ∈ s.edges := by
      by_contra hnot
      have hsame : s.contains k = s.contains (k - 1) := by
        refine inside_eq (Nat.sub_le k 1) fun e he hbetween => hnot ?_
        obtain rfl : e = k := by omega
        exact he
      exact hfirst (k := k - 1) (by omega) ⟨by omega, hsame.symm.trans hmem⟩
    have hany : (s.edges.any fun e => low < e && e ≤ high && s.contains e) = true :=
      List.any_eq_true.mpr ⟨k, hedge, by simp [hmem]; omega⟩
    rw [hany, Bool.or_true]

/-- A set has a point in a range that it meets. -/
theorem exists_of_meets (hle : low ≤ high) (h : s.meets low high = true) :
    ∃ n, low ≤ n ∧ n ≤ high ∧ s.contains n = true := by
  unfold meets at h
  rw [Bool.or_eq_true, List.any_eq_true] at h
  rcases h with hlow | ⟨e, -, he⟩
  · exact ⟨low, Nat.le_refl low, hle, hlow⟩
  · simp only [Bool.and_eq_true, decide_eq_true_eq] at he
    exact ⟨e, by omega, he.1.2, he.2⟩

end CharSet

namespace Pattern

open Utf8 (Reading)

/-- Which bytes match between two neighbours; at an end of the text there is none. -/
abbrev Language := (before : Option UInt8) → Bytes → (after : Option UInt8) → Prop

namespace Language

def Then (M N : Language) : Language := fun before bytes after =>
  ∃ u v, bytes = u ++ v ∧ M before u (v.head?.or after) ∧ N (u.getLast?.or before) v after

def Times (M : Language) : Nat → Language
  | 0 => fun _ bytes _ => bytes = []
  | n + 1 => M.Then (M.Times n)

/-- What matches with a byte in front. -/
def Behind (M : Language) (before : Option UInt8) (b : UInt8) : Language := fun _ bytes after =>
  M before (b :: bytes) after

variable {M N : Language} {before after : Option UInt8} {b : UInt8} {bytes : Bytes}

/-- A byte belongs to the first part, or that is empty. -/
theorem then_cons : M.Then N before (b :: bytes) after ↔
    M before [] (some b) ∧ N before (b :: bytes) after ∨
      (M.Behind before b).Then N (some b) bytes after := by
  have hlast (u : Bytes) : (b :: u).getLast?.or before = u.getLast?.or (some b) := by
    cases h : u.getLast? with
    | none =>
      rw [List.getLast?_eq_none_iff] at h
      subst h
      rfl
    | some a => simp [List.getLast?_cons, h]
  constructor
  · rintro ⟨u, v, huv, hM, hN⟩
    -- whether the first language takes the byte or nothing at all
    cases u with
    | nil =>
      rw [List.nil_append] at huv
      subst huv
      exact Or.inl ⟨hM, hN⟩
    | cons a u =>
      rw [List.cons_append, List.cons.injEq] at huv
      obtain ⟨rfl, rfl⟩ := huv
      rw [hlast] at hN
      exact Or.inr ⟨u, v, rfl, hM, hN⟩
  · rintro (⟨hM, hN⟩ | ⟨u, v, rfl, hM, hN⟩)
    · exact ⟨[], b :: bytes, rfl, hM, hN⟩
    · refine ⟨b :: u, v, rfl, hM, ?_⟩
      rw [hlast]
      exact hN

/-- A byte belongs to the first match that is not empty. -/
theorem times_cons {n : Nat} : M.Times n before (b :: bytes) after ↔
    ∃ j k, n = j + 1 + k ∧ (k = 0 ∨ M before [] (some b)) ∧
      (M.Behind before b).Then (M.Times j) (some b) bytes after := by
  constructor
  · intro h
    induction n with
    | zero => cases h
    | succ n ih =>
      rcases then_cons.mp h with ⟨hempty, hrest⟩ | hfirst
      · obtain ⟨j, k, rfl, -, hthen⟩ := ih hrest
        exact ⟨j, k + 1, by omega, Or.inr hempty, hthen⟩
      · exact ⟨n, 0, rfl, Or.inl rfl, hfirst⟩
  · rintro ⟨j, k, rfl, hempty, hthen⟩
    induction k with
    | zero => exact then_cons.mpr (Or.inr hthen)
    | succ k ih =>
      have hempty : M before [] (some b) := hempty.resolve_left (Nat.succ_ne_zero k)
      exact then_cons.mpr (Or.inl ⟨hempty, ih (Or.inr hempty)⟩)

/-- Nothing falls into nothing and nothing. -/
theorem then_nil : M.Then N before [] after ↔ M before [] after ∧ N before [] after := by
  constructor
  · rintro ⟨u, v, huv, hM, hN⟩
    obtain ⟨rfl, rfl⟩ := List.append_eq_nil_iff.mp huv.symm
    exact ⟨hM, hN⟩
  · rintro ⟨hM, hN⟩
    exact ⟨[], [], rfl, hM, hN⟩

/-- Nothing falls into some matches of nothing. -/
theorem times_nil {n : Nat} : M.Times n before [] after ↔ n = 0 ∨ M before [] after := by
  induction n with
  | zero => simp [Times]
  | succ n ih =>
    rw [Times, then_nil, ih]
    constructor
    · rintro ⟨hM, -⟩
      exact Or.inr hM
    · intro h
      have hM := h.resolve_left (Nat.succ_ne_zero n)
      exact ⟨hM, Or.inr hM⟩

end Language

namespace Expr

/-- The bytes that an expression matches. -/
def Matches : Expr → Language
  | .empty => fun _ bytes _ => bytes = []
  | .chars set reading => fun _ bytes _ => ∃ c, c ∈ set ∧ reading.Spells bytes c
  | .look l => fun before bytes after => bytes = [] ∧ l.holds ⟨before, after⟩ = true
  | .seq first second => first.Matches.Then second.Matches
  | .alt left right => fun before bytes after =>
    left.Matches before bytes after ∨ right.Matches before bytes after
  | .rep body min max => fun before bytes after =>
    ∃ n, min ≤ n ∧ (∀ m ∈ max, n ≤ m) ∧ body.Matches.Times n before bytes after

/-- Every repetition can be made: it asks for no more times than it allows. -/
def Ordered : Expr → Prop
  | .empty | .chars _ _ | .look _ => True
  | .seq first second => first.Ordered ∧ second.Ordered
  | .alt left right => left.Ordered ∧ right.Ordered
  | .rep body min max => body.Ordered ∧ ∀ m ∈ max, min ≤ m

variable {r : Reading} {e next : Expr} {before after : Option UInt8} {b : UInt8} {bytes : Bytes} {min : Nat}
  {max : Option Nat}

/-! ### Making expressions -/

/-- A repetition can be made if it asks for no more times than it allows. -/
theorem Ordered.repetition (h : e.Ordered) (hle : ∀ m ∈ max, min ≤ m) : (e.repetition min max).Ordered := by
  unfold Expr.repetition
  split
  · exact trivial
  · exact ⟨h, hle⟩

theorem Ordered.andThen (h : e.Ordered) (hnext : next.Ordered) : (e.andThen next).Ordered := by
  fun_cases Expr.andThen e next with
  | case1 => exact hnext
  | case2 => exact h
  | case3 => exact ⟨h, hnext⟩

/-- Expressions one behind the other can be made if each of them can. -/
theorem ordered_concat {es : List Expr} (h : ∀ e ∈ es, e.Ordered) : (concat es).Ordered := by
  induction es with
  | nil => exact trivial
  | cons e es ih =>
    rw [List.forall_mem_cons] at h
    exact h.1.andThen (ih h.2)

theorem ordered_choice {es : List Expr} (h : ∀ e ∈ es, e.Ordered) : (choice es).Ordered := by
  fun_induction choice es with
  | case1 => exact trivial
  | case2 e => exact h e (List.mem_singleton_self e)
  | case3 e rest _ ih =>
    rw [List.forall_mem_cons] at h
    exact ⟨h.1, ih h.2⟩

/-- What `andThen` leaves out matches nothing but the empty text. -/
theorem matches_andThen :
    (e.andThen next).Matches before bytes after ↔ (Expr.seq e next).Matches before bytes after := by
  fun_cases Expr.andThen e next with
  | case1 =>
    constructor
    · intro h
      exact ⟨[], bytes, rfl, rfl, h⟩
    · rintro ⟨u, v, rfl, hu, h⟩
      obtain rfl : u = [] := hu
      exact h
  | case2 =>
    constructor
    · intro h
      exact ⟨bytes, [], (List.append_nil bytes).symm, h, rfl⟩
    · rintro ⟨u, v, rfl, h, hv⟩
      obtain rfl : v = [] := hv
      rwa [List.append_nil]
  | case3 => exact Iff.rfl

/-- A repetition of at most no times matches nothing, like the empty expression. -/
theorem matches_repetition (hle : ∀ m ∈ max, min ≤ m) :
    (e.repetition min max).Matches before bytes after ↔ (Expr.rep e min max).Matches before bytes after := by
  unfold Expr.repetition
  split
  · next hmax =>
    subst hmax
    constructor
    · intro h
      exact ⟨0, hle 0 rfl, by simp, h⟩
    · rintro ⟨n, -, hn, h⟩
      obtain rfl : n = 0 := Nat.le_zero.mp (hn 0 rfl)
      exact h
  · exact Iff.rfl

/-! ### Nothing -/

/-- An expression accepts the empty text where it matches it. -/
theorem acceptsEmpty_iff (h : e.Ordered) :
    e.acceptsEmpty ⟨before, after⟩ = true ↔ e.Matches before [] after := by
  induction e with
  | empty => simp [acceptsEmpty, Matches]
  | chars set reading => simp [acceptsEmpty, Matches, Reading.not_spells_nil]
  | look l => simp [acceptsEmpty, Matches]
  | seq first second ih₁ ih₂ =>
    rw [acceptsEmpty, Bool.and_eq_true, ih₁ h.1, ih₂ h.2]
    exact Language.then_nil.symm
  | alt left right ih₁ ih₂ =>
    rw [acceptsEmpty, Bool.or_eq_true, ih₁ h.1, ih₂ h.2]
    exact Iff.rfl
  | rep body min max ih =>
    rw [acceptsEmpty, Bool.or_eq_true, ih h.1, beq_iff_eq]
    constructor
    · intro hempty
      exact ⟨min, Nat.le_refl min, h.2, Language.times_nil.mpr hempty⟩
    · rintro ⟨n, hmin, -, htimes⟩
      refine (Language.times_nil.mp htimes).imp_left ?_
      rintro rfl
      exact Nat.le_zero.mp hmin

/-! ### A byte -/

/-- What is left of a character of a set is what is left of it behind its next byte. -/
theorem matches_chars_cons {set : CharSet} {reading : Reading} (hreading : reading.Standing) :
    (Expr.chars set reading).Matches before (b :: bytes) after ↔
      ∃ next ∈ stepChars set reading b, next.Matches (some b) bytes after := by
  obtain ⟨held, hheld⟩ := hreading
  simp only [Matches, Reading.spells_iff]
  unfold stepChars
  cases hb : reading.accept b with
  | refused => simp [Reading.not_completes_of_refused hb]
  | char c =>
    simp only [Reading.completes_of_char hb]
    constructor
    · rintro ⟨c', hmem, rfl, rfl⟩
      rw [if_pos hmem]
      exact ⟨.empty, List.mem_singleton_self _, rfl⟩
    · rintro ⟨next, hnext, hmatches⟩
      split at hnext
      · next hmem =>
        rw [List.mem_singleton] at hnext
        subst hnext
        exact ⟨c, hmem, hmatches, rfl⟩
      · cases hnext
  | more next =>
    have hnext : next.Standing := ⟨_, hheld.more hb⟩
    simp only [Reading.completes_of_more hb]
    constructor
    · rintro ⟨c, hmem, hc⟩
      -- The rest of the character stays in the range of the reader, so the set meets that range.
      have hmeets : set.meets next.range.1 next.range.2 = true := by
        obtain ⟨hlow, hhigh⟩ := (hheld.begun_of_more hb).range_of_completes hc
        exact CharSet.meets_of_contains hmem hlow hhigh
      rw [if_pos hmeets]
      exact ⟨.chars set next, List.mem_singleton_self _, c, hmem, Reading.spells_iff.mpr hc⟩
    · rintro ⟨left, hleft, hmatches⟩
      split at hleft
      · rw [List.mem_singleton] at hleft
        subst hleft
        obtain ⟨c, hmem, hc⟩ := hmatches
        exact ⟨c, hmem, Reading.spells_iff.mp hc⟩
      · cases hleft

/-- What is left of a part goes on with what comes behind that part. -/
theorem exists_map_andThen {es : List Expr} {M : Language}
    (h : ∀ u a, M.Behind before b (some b) u a ↔ ∃ e ∈ es, e.Matches (some b) u a) :
    (M.Behind before b).Then next.Matches (some b) bytes after ↔
      ∃ e ∈ es.map (·.andThen next), e.Matches (some b) bytes after := by
  simp only [List.mem_map, exists_exists_and_eq_and, matches_andThen]
  constructor
  · rintro ⟨u, v, rfl, hu, hv⟩
    obtain ⟨e, he, hmatches⟩ := (h u _).mp hu
    exact ⟨e, he, u, v, rfl, hmatches, hv⟩
  · rintro ⟨e, he, u, v, rfl, hmatches, hv⟩
    exact ⟨u, v, rfl, (h u _).mpr ⟨e, he, hmatches⟩, hv⟩

/-- An expression matches bytes where what is left of it behind the first one matches the others. -/
theorem matches_cons (ho : e.Ordered) (hat : e.At r) (hr : r.Standing) :
    e.Matches before (b :: bytes) after ↔ ∃ next ∈ e.step before b, next.Matches (some b) bytes after := by
  -- on the expression, for all places in a character that it may begin at
  induction e generalizing r bytes after with
  | empty => simp [Matches, step]
  | look => simp [Matches, step]
  | chars set reading =>
    obtain rfl : reading = r := hat
    exact matches_chars_cons hr
  | seq first second ih₁ ih₂ =>
    rw [Matches, Language.then_cons, ← acceptsEmpty_iff ho.1, ih₂ ho.2 hat.2 Reading.standing_between,
      exists_map_andThen (fun u a => ih₁ ho.1 hat.1 hr), step]
    split
    · next hempty =>
      simp only [hempty, true_and, List.mem_append, or_and_right, exists_or]
      exact or_comm
    · next hempty => simp [hempty]
  | alt left right ih₁ ih₂ =>
    simp only [Matches, step, List.mem_append, or_and_right, exists_or]
    exact or_congr (ih₁ ho.1 hat.1 hr) (ih₂ ho.2 hat.2 hr)
  | rep body min max ih =>
    obtain ⟨rfl, hbody⟩ := hat
    obtain ⟨hordered, hle⟩ := ho
    have hleft (u : Bytes) (a : Option UInt8) : body.Matches.Behind before b (some b) u a ↔
        ∃ e ∈ body.step before b, e.Matches (some b) u a := ih hordered hbody hr
    have hempty : body.acceptsEmpty ⟨before, some b⟩ = true ↔ body.Matches before [] (some b) :=
      acceptsEmpty_iff hordered
    rw [step]
    by_cases hmax : max = some 0
    · -- A byte would take one time at least.
      subst hmax
      rw [if_pos rfl]
      constructor
      · rintro ⟨n, -, hn, htimes⟩
        obtain rfl : n = 0 := Nat.le_zero.mp (hn 0 rfl)
        cases htimes
      · rintro ⟨next, hnext, -⟩
        cases hnext
    · rw [if_neg hmax]
      dsimp only
      rw [← exists_map_andThen hleft]
      generalize hmin : (if body.acceptsEmpty ⟨before, some b⟩ = true then 0 else min - 1) = min'
      have hmin_le : min' ≤ min - 1 := by
        rw [← hmin]
        split <;> omega
      have hmap {m : Nat} (hm : m ∈ max.map (· - 1)) : ∃ m', m' ∈ max ∧ m = m' - 1 := by
        obtain ⟨m', hm', rfl⟩ := Option.map_eq_some_iff.mp hm
        exact ⟨m', hm', rfl⟩
      have hle' : ∀ m ∈ max.map (· - 1), min' ≤ m := by
        intro m hm
        obtain ⟨m', hm', rfl⟩ := hmap hm
        have := hle m' hm'
        omega
      constructor
      · rintro ⟨n, hn, hn_max, htimes⟩
        obtain ⟨j, k, rfl, hk, u, v, huv, hu, hv⟩ := Language.times_cons.mp htimes
        refine ⟨u, v, huv, hu, (matches_repetition hle').mpr ⟨j, ?_, ?_, hv⟩⟩
        · rw [← hmin]
          split
          · exact Nat.zero_le j
          · next hnot =>
            have hnone : k = 0 := hk.resolve_right (fun h => hnot (hempty.mpr h))
            omega
        · intro m hm
          obtain ⟨m', hm', rfl⟩ := hmap hm
          have := hn_max m' hm'
          omega
      · rintro ⟨u, v, huv, hu, hv⟩
        obtain ⟨j, hj, hj_max, htimes⟩ := (matches_repetition hle').mp hv
        -- What is missing to the least number of times can be spent on nothing.
        have hk : min - (j + 1) = 0 ∨ body.Matches before [] (some b) := by
          rw [← hempty]
          by_cases h : body.acceptsEmpty ⟨before, some b⟩ = true
          · exact Or.inr h
          · rw [if_neg h] at hmin
            exact Or.inl (by omega)
        refine ⟨j + 1 + (min - (j + 1)), by omega, ?_,
          Language.times_cons.mpr ⟨j, _, rfl, hk, u, v, huv, hu, htimes⟩⟩
        intro m hm
        have hjm : j ≤ m - 1 := hj_max _ (Option.map_eq_some_iff.mpr ⟨m, hm, rfl⟩)
        have hpos : m ≠ 0 := by
          rintro rfl
          exact hmax hm
        have := hle m hm
        omega

/-- What is left of an expression behind a byte can be made too. -/
theorem Ordered.of_mem_step (h : e.Ordered) (hnext : next ∈ e.step before b) : next.Ordered := by
  -- on the expression; in a repetition the bounds of what is left must be in order again
  induction e generalizing next with
  | empty => cases hnext
  | look => cases hnext
  | chars set reading =>
    rw [step, stepChars] at hnext
    cases hb : reading.accept b with
    | more after =>
      simp only [hb] at hnext
      split at hnext
      · rw [List.mem_singleton] at hnext
        subst hnext
        exact trivial
      · cases hnext
    | char c =>
      simp only [hb] at hnext
      split at hnext
      · rw [List.mem_singleton] at hnext
        subst hnext
        exact trivial
      · cases hnext
    | refused =>
      simp only [hb] at hnext
      cases hnext
  | seq first second ih₁ ih₂ =>
    have hthrough : next ∈ (first.step before b).map (·.andThen second) → next.Ordered := by
      rw [List.mem_map]
      rintro ⟨left, hleft, rfl⟩
      exact (ih₁ h.1 hleft).andThen h.2
    rw [step] at hnext
    split at hnext
    · rw [List.mem_append] at hnext
      exact hnext.elim hthrough (ih₂ h.2)
    · exact hthrough hnext
  | alt left right ih₁ ih₂ =>
    rw [step, List.mem_append] at hnext
    exact hnext.elim (ih₁ h.1) (ih₂ h.2)
  | rep body min max ih =>
    rw [step] at hnext
    split at hnext
    · cases hnext
    · rw [List.mem_map] at hnext
      obtain ⟨left, hleft, rfl⟩ := hnext
      refine (ih h.1 hleft).andThen (h.1.repetition ?_)
      intro m hm
      obtain ⟨m', hm', rfl⟩ := Option.map_eq_some_iff.mp hm
      have := h.2 m' hm'
      split <;> omega

end Expr

theorem Expr.inherited_ordered : Expr.Inherited Expr.Ordered where
  empty := trivial
  ofSet := fun _ => trivial
  look := fun _ => trivial
  repetition := Expr.Ordered.repetition
  concat := Expr.ordered_concat
  choice := Expr.ordered_choice

/-- All repetitions of a pattern can be made. -/
theorem ofText?_ordered {text : String} {p : Pattern} (h : ofText? text = some p) : p.expr.Ordered :=
  ofText?_of_inherited Expr.inherited_ordered h

/-! ### Walks -/

namespace Walk

/-- All that may be left can be made, and begins where a reader may stand. -/
def Sound (w : Walk) : Prop := ∀ e ∈ w.residuals, e.Ordered ∧ ∃ r, r.Standing ∧ e.At r

variable {w : Walk} {b : UInt8} {bytes : Bytes}

/-- What a step leaves comes from one of the expressions that were left. -/
theorem mem_step {next : Expr} :
    next ∈ (w.step b).residuals ↔ ∃ e ∈ w.residuals, next ∈ e.step w.before b := by
  show next ∈ (w.residuals.flatMap (·.step w.before b)).eraseDups ↔ _
  rw [List.mem_eraseDups, List.mem_flatMap]

/-- A step keeps what is left sound. -/
theorem Sound.step (h : w.Sound) (b : UInt8) : (w.step b).Sound := by
  intro next hnext
  obtain ⟨e, he, hstep⟩ := mem_step.mp hnext
  obtain ⟨hordered, r, hr, hat⟩ := h e he
  obtain ⟨r', hr', hat'⟩ := hat.exists_next_of_mem_step hstep
  exact ⟨hordered.of_mem_step hstep, r', hr.next? hr', hat'⟩

/-- A walk is complete behind the bytes that something of what may be left matches. -/
theorem isComplete_run_iff (h : w.Sound) :
    (w.run bytes).isComplete = true ↔ ∃ e ∈ w.residuals, e.Matches w.before bytes none := by
  -- on the bytes: each step takes one from the text, and `matches_cons` takes it from the matches
  induction bytes generalizing w with
  | nil =>
    show w.residuals.any _ = true ↔ _
    rw [List.any_eq_true]
    constructor
    · rintro ⟨e, he, hempty⟩
      exact ⟨e, he, (Expr.acceptsEmpty_iff (h e he).1).mp hempty⟩
    · rintro ⟨e, he, hmatches⟩
      exact ⟨e, he, (Expr.acceptsEmpty_iff (h e he).1).mpr hmatches⟩
  | cons b bytes ih =>
    show ((w.step b).run bytes).isComplete = true ↔ _
    rw [ih (h.step b)]
    constructor
    · rintro ⟨next, hnext, hmatches⟩
      obtain ⟨e, he, hstep⟩ := mem_step.mp hnext
      obtain ⟨hordered, r, hr, hat⟩ := h e he
      exact ⟨e, he, (Expr.matches_cons hordered hat hr).mpr ⟨next, hstep, hmatches⟩⟩
    · rintro ⟨e, he, hmatches⟩
      obtain ⟨hordered, r, hr, hat⟩ := h e he
      obtain ⟨next, hstep, hnext⟩ := (Expr.matches_cons hordered hat hr).mp hmatches
      exact ⟨next, mem_step.mpr ⟨e, he, hstep⟩, hnext⟩

/-- Where nothing is left, nothing will be. -/
theorem residuals_run_of_nil (h : w.residuals = []) (bytes : Bytes) : (w.run bytes).residuals = [] := by
  induction bytes generalizing w with
  | nil => exact h
  | cons b bytes ih =>
    apply ih
    show (w.residuals.flatMap (·.step w.before b)).eraseDups = []
    rw [h]
    rfl

/-- On the way to a match something is left. -/
theorem isAlive_of_isComplete_run (h : (w.run bytes).isComplete = true) : w.isAlive = true := by
  unfold isAlive
  cases hresiduals : w.residuals with
  | nil =>
    unfold isComplete at h
    rw [residuals_run_of_nil hresiduals bytes] at h
    cases h
  | cons => rfl

end Walk
end Pattern
end GuidedDecoding
