import GuidedDecoding.Pattern.Walk
import GuidedDecoding.Proofs.Pattern.Reader

/-!
# Reading with a closing behind

A pattern is put in parentheses as a text, with `$` behind it, before it is read. What stands behind it then
is called the closing here. A reader that succeeds on a text goes the same way where the closing stands behind
the text (`Frames`), because no part of a pattern looks for a closing parenthesis further on than it reads.

The one exception is a comment that does not end, which swallows the closing. Nothing is left of the text then,
and every reader goes on from the same place with and without the closing (`Keeps`).
-/

namespace GuidedDecoding.Pattern

open Unicode (isBlank)

def closing : List Char := [')', '$']

theorem length_closing (l : List Char) : (l ++ closing).length = l.length + 2 := List.length_append

def Cursor.extend (s : Cursor) : Cursor := { s with rest := s.rest ++ closing }

/-- A cursor with the closing behind, or without it where a comment has swallowed it. -/
def Cursor.Beside (t t' : Cursor) : Prop := t' = t.extend ∨ t' = t

section Frames

variable {α β : Type} {s : Cursor} {x y : Read α} {f g : α → Read β}

/-! ### Going the same way -/

/-- Where the first reader succeeds, the second one does the same. -/
def Keeps (s : Cursor) (x y : Read α) : Prop := ∀ r, StateT.run x s = some r → StateT.run y s = some r

/-- Where the first reader succeeds, the second one does the same with the closing behind. -/
def Frames (s : Cursor) (x y : Read α) : Prop :=
  ∀ a t, StateT.run x s = some (a, t) → ∃ t', StateT.run y s.extend = some (a, t') ∧ t.Beside t'

theorem Keeps.refl (s : Cursor) (x : Read α) : Keeps s x x := fun _ h => h

/-- One reader behind another keeps what both keep. -/
theorem Keeps.bind (hx : Keeps s x y) (hf : ∀ a t, StateT.run x s = some (a, t) → Keeps t (f a) (g a)) :
    Keeps s (x >>= f) (y >>= g) := by
  intro r h
  obtain ⟨a, t, hxt, hft⟩ := run_bind_eq_some.mp h
  exact run_bind_eq_some.mpr ⟨a, t, hx _ hxt, hf a t hxt r hft⟩

/-- Where a comment has swallowed the closing, both go on from the same place. -/
theorem Frames.bind_of_keeps (hx : Frames s x y)
    (hf : ∀ a t, StateT.run x s = some (a, t) → Frames t (f a) (g a) ∧ Keeps t (f a) (g a)) :
    Frames s (x >>= f) (y >>= g) := by
  intro b u h
  obtain ⟨a, t, hxt, hft⟩ := run_bind_eq_some.mp h
  obtain ⟨t', hyt, rfl | rfl⟩ := hx a t hxt
  · obtain ⟨u', hgu, hbeside⟩ := (hf a t hxt).1 b u hft
    exact ⟨u', run_bind_eq_some.mpr ⟨a, _, hyt, hgu⟩, hbeside⟩
  · exact ⟨u, run_bind_eq_some.mpr ⟨a, _, hyt, (hf a _ hxt).2 _ hft⟩, Or.inr rfl⟩

/-- So it is with the closing behind. -/
theorem Frames.bind (hx : Frames s x y) (hf : ∀ a t, StateT.run x s = some (a, t) → Frames t (f a) (f a)) :
    Frames s (x >>= f) (y >>= f) :=
  hx.bind_of_keeps fun a t h => ⟨hf a t h, Keeps.refl t (f a)⟩

/-- Where the first reader succeeds, the second one does the same, with the closing behind and without. -/
structure Follows (s : Cursor) (x y : Read α) : Prop where
  frames : Frames s x y
  keeps : Keeps s x y

theorem Frames.follows (h : Frames s x x) : Follows s x x := ⟨h, Keeps.refl s x⟩

/-- Two readers follow a cursor one behind the other. -/
theorem Follows.bind (hx : Follows s x y)
    (hf : ∀ a t, StateT.run x s = some (a, t) → Follows t (f a) (g a)) : Follows s (x >>= f) (y >>= g) :=
  ⟨hx.frames.bind_of_keeps fun a t h => ⟨(hf a t h).frames, (hf a t h).keeps⟩,
    hx.keeps.bind fun a t h => (hf a t h).keeps⟩

theorem frames_pure (s : Cursor) (a : α) : Frames s (pure a) (pure a) := by
  intro b t h
  cases h
  exact ⟨s.extend, rfl, Or.inl rfl⟩

theorem frames_failure (s : Cursor) (y : Read α) : Frames s failure y := by
  intro a t h
  cases h

/-- Both decide in the same way. -/
theorem frames_ite {p q : Prop} [Decidable p] [Decidable q] {x₁ x₂ y₁ y₂ : Read α} (hqp : q ↔ p)
    (h₁ : p → Frames s x₁ y₁) (h₂ : ¬ p → Frames s x₂ y₂) :
    Frames s (if p then x₁ else x₂) (if q then y₁ else y₂) := by
  by_cases hp : p
  · rw [if_pos hp, if_pos (hqp.mpr hp)]
    exact h₁ hp
  · rw [if_neg hp, if_neg (mt hqp.mp hp)]
    exact h₂ hp

/-! ### Looking ahead -/

theorem frames_get {f g : Cursor → Read β} (h : Frames s (f s) (g s.extend)) :
    Frames s (get >>= f) (get >>= g) := h

theorem follows_get {f g : Cursor → Read β} (h : Follows s (f s) (g s)) (hextend : g s.extend = g s) :
    Follows s (get >>= f) (get >>= g) :=
  ⟨frames_get (hextend ▸ h.frames), h.keeps⟩

theorem frames_rest {f g : List Char → Read β} (h : Frames s (f s.rest) (g (s.rest ++ closing))) :
    Frames s (Read.rest >>= f) (Read.rest >>= g) := h

/-- Where a text is asked for its beginning only, the closing shows at the end of the text. -/
theorem follows_rest {f g : List Char → Read β}
    (hnil : s.rest = [] → Frames s (f []) (g closing) ∧ Keeps s (f []) (g []))
    (hcons : ∀ c l l', s.rest = c :: l → Follows s (f (c :: l)) (g (c :: l'))) :
    Follows s (Read.rest >>= f) (Read.rest >>= g) := by
  have hrun {h : List Char → Read β} : StateT.run (Read.rest >>= h) s = StateT.run (h s.rest) s := rfl
  cases hrest : s.rest with
  | nil =>
    obtain ⟨hframes, hkeeps⟩ := hnil hrest
    constructor
    · apply frames_rest
      rw [hrest]
      exact hframes
    · intro r h
      rw [hrun, hrest] at h ⊢
      exact hkeeps r h
  | cons c l =>
    constructor
    · apply frames_rest
      rw [hrest]
      exact (hcons c l (l ++ closing) hrest).frames
    · intro r h
      rw [hrun, hrest] at h ⊢
      exact (hcons c l l hrest).keeps r h

theorem run_current (s : Cursor) : StateT.run Read.current s = s.rest.head?.map (·, s) := by
  obtain ⟨_ | ⟨c, l⟩, verbose, names⟩ := s <;> rfl

/-- A reader that looks at the next character fails at the end of the text. -/
theorem rest_ne_nil_of_current {f : Char → Read β} {r : β × Cursor}
    (h : StateT.run (Read.current >>= f) s = some r) : s.rest ≠ [] := by
  intro hnil
  obtain ⟨c, t, hc, -⟩ := run_bind_eq_some.mp h
  rw [run_current, hnil] at hc
  cases hc

/-- A character that is there is there with the closing behind. -/
theorem frames_current {f g : Char → Read β} (h : ∀ c l, s.rest = c :: l → Frames s (f c) (g c)) :
    Frames s (Read.current >>= f) (Read.current >>= g) := by
  intro b t hrun
  obtain ⟨c, u, hc, hf⟩ := run_bind_eq_some.mp hrun
  rw [run_current] at hc
  cases hrest : s.rest with
  | nil =>
    rw [hrest] at hc
    cases hc
  | cons c' l =>
    rw [hrest] at hc
    cases hc
    obtain ⟨t', hg, hbeside⟩ := h c l hrest b t hf
    refine ⟨t', run_bind_eq_some.mpr ⟨c, s.extend, ?_, hg⟩, hbeside⟩
    rw [run_current, Cursor.extend, hrest]
    rfl

theorem follows_current {f g : Char → Read β} (h : ∀ c l, s.rest = c :: l → Follows s (f c) (g c)) :
    Follows s (Read.current >>= f) (Read.current >>= g) := by
  refine ⟨frames_current fun c l hrest => (h c l hrest).frames, ?_⟩
  refine (Keeps.refl s _).bind fun c t hc => ?_
  rw [run_current] at hc
  cases hrest : s.rest with
  | nil =>
    rw [hrest] at hc
    cases hc
  | cons c' l =>
    rw [hrest] at hc
    cases hc
    exact (h c l hrest).keeps

/-- A text without a closing parenthesis begins what is left, or does not, whether or not a closing parenthesis is
behind. -/
theorem isPrefixOf_append_paren {text : List Char} (h : ')' ∉ text) (l after : List Char) :
    text.isPrefixOf (l ++ ')' :: after) = text.isPrefixOf l := by
  induction text generalizing l with
  | nil => cases l <;> rfl
  | cons c text ih =>
    rw [List.mem_cons, not_or] at h
    cases l with
    | nil =>
      have hne : (c == ')') = false := beq_eq_false_iff_ne.mpr (Ne.symm h.1)
      simp [List.isPrefixOf, hne]
    | cons d l => simp [List.isPrefixOf, ih h.2]

theorem run_isNext (text : String) (s : Cursor) :
    StateT.run (Read.isNext text) s = some (text.toList.isPrefixOf s.rest, s) := rfl

/-- A text without a closing parenthesis is next with the closing behind if it is next without. -/
theorem frames_isNext {text : String} (htext : ')' ∉ text.toList) {f g : Bool → Read β}
    (h : ∀ b, (b = true → text.toList <+: s.rest) → Frames s (f b) (g b)) :
    Frames s (Read.isNext text >>= f) (Read.isNext text >>= g) := by
  have hrun : StateT.run (Read.isNext text) s.extend = some (text.toList.isPrefixOf s.rest, s.extend) := by
    rw [← isPrefixOf_append_paren htext s.rest ['$']]
    exact run_isNext text s.extend
  intro b t ht
  obtain ⟨c, u, hc, hf⟩ := run_bind_eq_some.mp ht
  rw [run_isNext] at hc
  cases hc
  obtain ⟨t', hg, hbeside⟩ := h _ (fun hb => List.isPrefixOf_iff_prefix.mp hb) b t hf
  exact ⟨t', run_bind_eq_some.mpr ⟨_, _, hrun, hg⟩, hbeside⟩

theorem eq_of_guard {p : Prop} [Decidable p] {a : Unit} {t : Cursor}
    (h : StateT.run (guard p : Read Unit) s = some (a, t)) : t = s := by
  unfold guard at h
  split at h
  · cases h
    rfl
  · cases h

theorem frames_guard {p : Prop} [Decidable p] {f g : Unit → Read β} (h : p → Frames s (f ()) (g ())) :
    Frames s (guard p >>= f) (guard p >>= g) := by
  by_cases hp : p
  · simpa only [guard, if_pos hp, pure_bind] using h hp
  · intro b t hrun
    obtain ⟨_, _, hguard, -⟩ := run_bind_eq_some.mp hrun
    rw [guard, if_neg hp] at hguard
    cases hguard

theorem frames_ofOption {o : Option α} (h : ∀ a, o = some a → Frames s (f a) (g a)) :
    Frames s (Read.ofOption o >>= f) (Read.ofOption o >>= g) := by
  cases o with
  | none =>
    intro b t hrun
    obtain ⟨_, _, hnone, -⟩ := run_bind_eq_some.mp hrun
    cases hnone
  | some a => exact h a rfl

theorem follows_guard (s : Cursor) (p : Prop) [Decidable p] :
    Follows s (guard p : Read Unit) (guard p) := by
  by_cases hp : p
  · rw [guard, if_pos hp]
    exact (frames_pure s ()).follows
  · rw [guard, if_neg hp]
    exact (frames_failure s _).follows

theorem follows_ofOption (s : Cursor) (o : Option α) : Follows s (Read.ofOption o) (Read.ofOption o) := by
  cases o with
  | none => exact (frames_failure s _).follows
  | some a => exact (frames_pure s a).follows

/-! ### Moving on -/

/-- Characters that are there can be skipped. -/
theorem frames_skip {count : Nat} (h : count ≤ s.rest.length) :
    Frames s (Read.skip count) (Read.skip count) := by
  intro a t hrun
  cases hrun
  refine ⟨_, rfl, Or.inl ?_⟩
  show { s.extend with rest := (s.rest ++ closing).drop count } = _
  rw [List.drop_append_of_le_length h]
  rfl

theorem not_isBlank_paren : isBlank ')' = false := by cbv

/-- What is left behind blanks has the closing behind it, unless it is in a comment that does not end. -/
theorem afterBlanks_closing (inComment : Bool) (l : List Char) :
    afterBlanks inComment (l ++ closing) = afterBlanks inComment l ++ closing ∨
      afterBlanks inComment (l ++ closing) = [] ∧ afterBlanks inComment l = [] := by
  induction l generalizing inComment with
  | nil =>
    cases inComment with
    | false => exact Or.inl (by simp [afterBlanks, closing, not_isBlank_paren])
    | true => exact Or.inr (by simp [afterBlanks, closing])
  | cons c l ih =>
    rw [List.cons_append, afterBlanks, afterBlanks]
    by_cases hcomment : inComment = true
    · simpa only [if_pos hcomment] using ih (c != '\n')
    · by_cases hblank : isBlank c = true
      · simpa only [if_neg hcomment, if_pos hblank] using ih false
      · by_cases hsign : c = '#'
        · simpa only [if_neg hcomment, if_neg hblank, if_pos hsign] using ih true
        · simp only [if_neg hcomment, if_neg hblank, if_neg hsign]
          exact Or.inl rfl

/-- The blanks behind some text are skipped, perhaps with the closing, and then nothing is left. -/
theorem blanks_closing {t : Cursor} (h : StateT.run Read.blanks s = some ((), t)) :
    StateT.run Read.blanks s.extend = some ((), t.extend) ∨
      StateT.run Read.blanks s.extend = some ((), t) ∧ t.rest = [] := by
  obtain ⟨rest, verbose, names⟩ := s
  cases verbose with
  | false =>
    cases h
    exact Or.inl rfl
  | true =>
    cases h
    have hrun : StateT.run Read.blanks (Cursor.extend ⟨rest, true, names⟩) =
        some ((), { rest := afterBlanks false (rest ++ closing), verbose := true, names }) := rfl
    rcases afterBlanks_closing false rest with hrest | ⟨hrest, hnone⟩
    · rw [hrest] at hrun
      exact Or.inl hrun
    · refine Or.inr ⟨?_, hnone⟩
      rw [hrun, hrest]
      exact congrArg (fun l => some ((), ({ rest := l, verbose := true, names } : Cursor))) hnone.symm

/-- Blanks end in front of the closing, or a comment swallows it. -/
theorem frames_blanks (s : Cursor) : Frames s Read.blanks Read.blanks := by
  intro a t h
  rcases blanks_closing h with hrun | ⟨hrun, -⟩
  · exact ⟨_, hrun, Or.inl rfl⟩
  · exact ⟨_, hrun, Or.inr rfl⟩

theorem length_pos_of_rest {c : Char} {l : List Char} (h : s.rest = c :: l) : 1 ≤ s.rest.length := by
  rw [h]
  exact Nat.succ_le_succ (Nat.zero_le _)

theorem frames_advance (h : 1 ≤ s.rest.length) : Frames s Read.advance Read.advance :=
  (frames_skip h).bind fun _ t _ => frames_blanks t

/-- Where something is left behind a character and its blanks, no comment has swallowed the closing. -/
theorem advance_closing {t : Cursor} (hs : 1 ≤ s.rest.length)
    (h : StateT.run Read.advance s = some ((), t)) (ht : t.rest ≠ []) :
    StateT.run Read.advance s.extend = some ((), t.extend) := by
  obtain ⟨⟨⟩, u, hskip, hblanks⟩ := run_bind_eq_some.mp h
  have hskip' : StateT.run (Read.skip 1) s.extend = some ((), u.extend) := by
    cases hskip
    show some ((), { s.extend with rest := (s.rest ++ closing).drop 1 }) = _
    rw [List.drop_append_of_le_length hs]
    rfl
  rcases blanks_closing hblanks with hrun | ⟨-, hnone⟩
  · exact run_bind_eq_some.mpr ⟨(), _, hskip', hrun⟩
  · exact absurd hnone ht

theorem rest_ne_nil_of_expect {c : Char} {r : Unit × Cursor} (h : StateT.run (Read.expect c) s = some r) :
    s.rest ≠ [] :=
  rest_ne_nil_of_current h

theorem frames_expect (s : Cursor) (c : Char) : Frames s (Read.expect c) (Read.expect c) :=
  frames_current fun _ _ hrest => frames_guard fun _ => frames_skip (length_pos_of_rest hrest)

/-! ### Characters of a class -/

/-- No character is put back. -/
theorem length_afterBlanks (inComment : Bool) (l : List Char) :
    (afterBlanks inComment l).length ≤ l.length := by
  induction l generalizing inComment with
  | nil => exact Nat.le_refl 0
  | cons c l ih =>
    rw [afterBlanks]
    repeat' split
    all_goals first | exact Nat.le_succ_of_le (ih _) | exact Nat.le_refl _

/-- A character less is left, at least. -/
theorem length_advance {t : Cursor} (h : StateT.run Read.advance s = some ((), t)) :
    t.rest.length ≤ s.rest.length - 1 := by
  obtain ⟨rest, verbose, names⟩ := s
  cases verbose with
  | false =>
    cases h
    exact Nat.le_of_eq List.length_drop
  | true =>
    cases h
    exact Nat.le_trans (length_afterBlanks false _) (Nat.le_of_eq List.length_drop)

theorem run_takeWhile_nil (p : Char → Bool) (n : Nat) (h : s.rest = []) :
    StateT.run (Read.takeWhile p n) s = some ([], s) := by
  obtain ⟨rest, verbose, names⟩ := s
  subst h
  cases n <;> rfl

theorem run_takeWhile_cons (p : Char → Bool) (n : Nat) {c : Char} {l : List Char} (h : s.rest = c :: l) :
    StateT.run (Read.takeWhile p (n + 1)) s =
      StateT.run
        (if p c then do
          Read.advance
          return c :: (← Read.takeWhile p n)
        else return []) s := by
  obtain ⟨rest, verbose, names⟩ := s
  subst h
  rfl

/-- More fuel than there are characters changes nothing. -/
theorem keeps_takeWhile (p : Char → Bool) {n k : Nat} (hn : s.rest.length ≤ n) (hk : s.rest.length ≤ k) :
    Keeps s (Read.takeWhile p n) (Read.takeWhile p k) := by
  -- on the fuel of the first reader; each character takes one unit of both
  induction n generalizing s k with
  | zero =>
    intro r h
    have hrest : s.rest = [] := List.eq_nil_of_length_eq_zero (Nat.le_zero.mp hn)
    rw [run_takeWhile_nil p _ hrest] at h ⊢
    exact h
  | succ n ih =>
    intro r h
    cases hrest : s.rest with
    | nil =>
      rw [run_takeWhile_nil p _ hrest] at h ⊢
      exact h
    | cons c l =>
      rw [hrest, List.length_cons] at hn hk
      obtain ⟨k, rfl⟩ : ∃ j, k = j + 1 := ⟨k - 1, by omega⟩
      rw [run_takeWhile_cons p _ hrest] at h ⊢
      split at h
      · next hc =>
        rw [if_pos hc]
        refine (Keeps.refl s _).bind ?_ r h
        intro a t hadvance
        have hlength := length_advance hadvance
        rw [hrest, List.length_cons] at hlength
        exact (ih (by omega) (by omega)).bind fun _ t' _ => Keeps.refl t' _
      · next hc =>
        rw [if_neg hc]
        exact h

/-- At the end of the pattern nothing is taken, unless the closing is. -/
theorem takeWhile_closing_nil (p : Char → Bool) {n k : Nat} (hrest : s.rest = [])
    (hk : s.rest.length + 2 ≤ k) {a : List Char} {t : Cursor}
    (h : StateT.run (Read.takeWhile p n) s = some (a, t)) (hend : p ')' = false ∨ t.rest ≠ []) :
    ∃ t', StateT.run (Read.takeWhile p k) s.extend = some (a, t') ∧ t.Beside t' := by
  rw [run_takeWhile_nil p _ hrest] at h
  cases h
  have hp : p ')' = false := hend.resolve_right fun hne => hne hrest
  obtain ⟨k, rfl⟩ : ∃ j, k = j + 1 := ⟨k - 1, by omega⟩
  have hextend : s.extend.rest = ')' :: ['$'] := by
    rw [Cursor.extend, hrest]
    rfl
  rw [run_takeWhile_cons p _ hextend, if_neg (by rw [hp]; exact Bool.false_ne_true)]
  exact ⟨_, rfl, Or.inl rfl⟩

/-- Characters of a class are taken as far with the closing behind, if the class ends there or the text goes
on. -/
theorem takeWhile_closing (p : Char → Bool) {n k : Nat} (hn : s.rest.length ≤ n)
    (hk : s.rest.length + 2 ≤ k) {a : List Char} {t : Cursor}
    (h : StateT.run (Read.takeWhile p n) s = some (a, t)) (hend : p ')' = false ∨ t.rest ≠ []) :
    ∃ t', StateT.run (Read.takeWhile p k) s.extend = some (a, t') ∧ t.Beside t' := by
  -- the same induction, with the cursor of the second reader beside that of the first
  induction n generalizing s k a with
  | zero => exact takeWhile_closing_nil p (List.eq_nil_of_length_eq_zero (Nat.le_zero.mp hn)) hk h hend
  | succ n ih =>
    cases hrest : s.rest with
    | nil => exact takeWhile_closing_nil p hrest hk h hend
    | cons c l =>
      have hextend : s.extend.rest = c :: (l ++ closing) := by
        rw [Cursor.extend, hrest]
        rfl
      rw [hrest, List.length_cons] at hn hk
      obtain ⟨k, rfl⟩ : ∃ j, k = j + 1 := ⟨k - 1, by omega⟩
      rw [run_takeWhile_cons p _ hrest] at h
      rw [run_takeWhile_cons p _ hextend]
      split at h
      · next hc =>
        rw [if_pos hc]
        obtain ⟨_, u, hadvance, hrun⟩ := run_bind_eq_some.mp h
        obtain ⟨a', t', htake, hpure⟩ := run_bind_eq_some.mp hrun
        cases hpure
        have hlength := length_advance hadvance
        rw [hrest, List.length_cons] at hlength
        -- either the closing is still ahead, or a comment has swallowed it and both readers see the same
        obtain ⟨u', hadvance', rfl | rfl⟩ := frames_advance (length_pos_of_rest hrest) _ _ hadvance
        · obtain ⟨t', htake', hbeside⟩ := ih (k := k) (by omega) (by omega) htake
          exact ⟨t', run_bind_eq_some.mpr ⟨_, _, hadvance', run_bind_eq_some.mpr ⟨_, _, htake', rfl⟩⟩,
            hbeside⟩
        · have htake' := keeps_takeWhile p (k := k) (by omega) (by omega) _ htake
          exact ⟨t, run_bind_eq_some.mpr ⟨_, _, hadvance', run_bind_eq_some.mpr ⟨_, _, htake', rfl⟩⟩,
            Or.inr rfl⟩
      · next hc =>
        rw [if_neg hc]
        exact frames_pure s [] _ _ h

/-- A class without the closing parenthesis does not reach into the closing. -/
theorem frames_run {p : Char → Bool} (hp : p ')' = false) (s : Cursor) : Frames s (Read.run p) (Read.run p) := by
  apply frames_rest
  intro a t h
  exact takeWhile_closing p (Nat.le_refl _) (Nat.le_of_eq (length_closing _).symm) h (Or.inl hp)

/-- A class that does not end at the closing is taken up to a character behind it. -/
theorem frames_run_expect (p : Char → Bool) (c : Char) (s : Cursor) (g : List Char → α) :
    Frames s (do let text ← Read.run p; Read.expect c; return g text)
      (do let text ← Read.run p; Read.expect c; return g text) := by
  intro a t h
  obtain ⟨text, u, hrun, hexpect⟩ := run_bind_eq_some.mp h
  obtain ⟨_, v, hc, hpure⟩ := run_bind_eq_some.mp hexpect
  have hrest : u.rest ≠ [] := rest_ne_nil_of_expect hc
  have hframes : Frames u (do Read.expect c; return g text) (do Read.expect c; return g text) :=
    (frames_expect u c).bind fun _ _ _ => frames_pure _ _
  obtain ⟨u', hrun', rfl | rfl⟩ := takeWhile_closing p (k := (s.rest ++ closing).length) (Nat.le_refl _)
    (Nat.le_of_eq (length_closing _).symm) hrun (Or.inr hrest)
  · obtain ⟨t', hgo, hbeside⟩ := hframes a t hexpect
    exact ⟨t', run_bind_eq_some.mpr ⟨text, _, hrun', hgo⟩, hbeside⟩
  · exact ⟨t, run_bind_eq_some.mpr ⟨text, _, hrun', hexpect⟩, Or.inr rfl⟩

/-! ### Numbers and escapes -/

theorem dropWhile_isBlank_append_paren (l after : List Char) :
    (l ++ ')' :: after).dropWhile isBlank = l.dropWhile isBlank ++ ')' :: after := by
  induction l with
  | nil => simp [not_isBlank_paren]
  | cons c l ih =>
    rw [List.cons_append, List.dropWhile_cons, List.dropWhile_cons]
    split
    · exact ih
    · rfl

theorem frames_trim (s : Cursor) :
    Frames s (modify fun s => { s with rest := s.rest.dropWhile isBlank })
      (modify fun s => { s with rest := s.rest.dropWhile isBlank }) := by
  intro a t h
  cases h
  refine ⟨_, rfl, Or.inl ?_⟩
  show { s.extend with rest := (s.rest ++ ')' :: ['$']).dropWhile isBlank } = _
  rw [dropWhile_isBlank_append_paren]
  rfl

theorem frames_decimal (s : Cursor) : Frames s decimal decimal := by
  refine (frames_trim s).bind fun _ _ _ => (frames_run (by decide) _).bind fun digits _ _ => ?_
  refine (frames_trim _).bind fun _ _ _ => frames_guard fun _ => frames_guard fun _ => ?_
  exact frames_pure _ _

theorem frames_hexDigits (count : Nat) (s : Cursor) : Frames s (hexDigits count) (hexDigits count) := by
  induction count generalizing s with
  | zero => exact frames_pure s []
  | succ count ih =>
    refine frames_current fun c l hrest => frames_guard fun _ => ?_
    refine (frames_advance (length_pos_of_rest hrest)).bind fun _ t _ => (ih t).bind fun _ _ _ => ?_
    exact frames_pure _ _

theorem frames_codePoint (count : Nat) (h : 1 ≤ s.rest.length) :
    Frames s (codePoint count) (codePoint count) := by
  refine (frames_advance h).bind fun _ t _ => frames_current fun c l hrest => ?_
  split
  · refine (frames_advance (length_pos_of_rest hrest)).bind fun _ _ _ => ?_
    refine (frames_run (by decide) _).bind fun digits _ _ => frames_current fun d m hrest' => ?_
    refine frames_guard fun _ => (frames_advance (length_pos_of_rest hrest')).bind fun _ _ _ => ?_
    exact frames_ofOption fun _ _ => frames_pure _ _
  · refine (frames_hexDigits count _).bind fun _ _ _ => ?_
    exact frames_ofOption fun _ _ => frames_pure _ _

theorem frames_property (negated : Bool) (h : 1 ≤ s.rest.length) :
    Frames s (property negated) (property negated) := by
  refine (frames_advance h).bind fun _ t _ => frames_current fun c l hrest => ?_
  split
  · refine (frames_advance (length_pos_of_rest hrest)).bind fun _ u _ => ?_
    exact frames_run_expect _ _ u fun text => propertyClass text negated
  · refine frames_guard fun _ => (frames_advance (length_pos_of_rest hrest)).bind fun _ _ _ => ?_
    exact frames_pure _ _

theorem frames_wordEdge (s : Cursor) : Frames s wordEdge wordEdge := by
  apply frames_get
  refine frames_isNext (by decide) fun b hb => ?_
  cases b with
  | false => exact frames_pure _ _
  | true =>
    have hs : 1 ≤ s.rest.length := (hb rfl).length_le
    intro a t h
    obtain ⟨⟨⟩, u, hadvance, hname⟩ := run_bind_eq_some.mp h
    -- The reader may go back to the brace, but not from the end of the text.
    have hadvance' := advance_closing hs hadvance (rest_ne_nil_of_current hname)
    refine (?_ : Frames u _ _) a t hname |>.imp fun t' ht' =>
      ⟨run_bind_eq_some.mpr ⟨(), _, hadvance', ht'.1⟩, ht'.2⟩
    refine frames_current fun c l hrest => ?_
    split
    · refine (frames_run (by decide) _).bind fun name _ _ => (frames_expect _ _).bind fun _ _ _ => ?_
      split <;> first | exact frames_pure _ _ | exact frames_failure _ _
    · intro b v hv
      cases hv
      exact ⟨_, rfl, Or.inl rfl⟩

end Frames

end GuidedDecoding.Pattern
