import GuidedDecoding.Proofs.Pattern.Suffix

/-!
# Reading up to a closing parenthesis

A text is read with a closing parenthesis and some more text behind it. A reader that comes to the parenthesis
either goes past it, and then never comes back, or it stops in front of it and reads what it reads where the text
ends there (`Cuts`).

Two readers stop in neither way. An item of a class is taken up to the parenthesis, although by itself the text would
have to go on behind the item; and a word boundary looks behind a brace for a name, and goes back to the brace. What
follows them goes past the parenthesis then, or fails. `Cuts` leaves room for where such readers stand.
-/

namespace GuidedDecoding.Pattern

open Unicode (isBlank)

/-- The cursor with a closing parenthesis, and a text behind it, behind what is left. -/
def Cursor.before (s : Cursor) (after : List Char) : Cursor := { s with rest := s.rest ++ ')' :: after }

/-- The closing parenthesis in front of this text is next. -/
def Cursor.Facing (t : Cursor) (after : List Char) : Prop := t.rest = ')' :: after

/-- The closing parenthesis in front of this text has been read. -/
def Cursor.Past (t : Cursor) (after : List Char) : Prop := t.rest.length ≤ after.length

section Cuts

variable {α β : Type} {s t : Cursor} {after : List Char} {x y : Read α} {f g : α → Read β}
variable {E : α → Cursor → Prop} {F : β → Cursor → Prop}

theorem Drops.past (hx : Drops x) (hs : s.Past after) {a : α} (h : StateT.run x s = some (a, t)) : t.Past after :=
  Nat.le_trans (hx.length_le h) hs

/-- Where the parenthesis is next, it is taken. -/
theorem Takes.past (hx : Takes x) (hs : s.Facing after) {a : α} (h : StateT.run x s = some (a, t)) :
    t.Past after := by
  have hsuffix : t.rest <:+ s.rest.tail := hx s a t h
  rw [hs] at hsuffix
  exact hsuffix.length_le

/-- At the end of a text the parenthesis is next. -/
theorem facing_before (hs : s.rest = []) : (s.before after).Facing after := by
  rw [Cursor.Facing, Cursor.before, hs]
  rfl

/-- Where the first reader succeeds on the text with the closing parenthesis behind, it has gone past the
parenthesis, or stands in one of the given places, or the second one does the same on the text alone. -/
structure Cuts (after : List Char) (E : α → Cursor → Prop) (s : Cursor) (x y : Read α) : Prop where
  drops : Drops x
  cut : ∀ a t', StateT.run x (s.before after) = some (a, t') →
    t'.Past after ∨ E a t' ∨ ∃ t, t' = t.before after ∧ StateT.run y s = some (a, t)

def Nowhere (_ : α) (_ : Cursor) : Prop := False

/-- One reader behind another cuts, if from the other places of the first one the second one goes past the
parenthesis, or to other places of its own. -/
theorem Cuts.bind_of (hx : Cuts after E s x y) (hf : ∀ a t, Cuts after F t (f a) (g a))
    (hE : ∀ a t, E a t → ∀ b u, StateT.run (f a) t = some (b, u) → u.Past after ∨ F b u) :
    Cuts after F s (x >>= f) (y >>= g) := by
  refine ⟨hx.drops.bind fun a => (hf a s).drops, ?_⟩
  intro b u hrun
  obtain ⟨a, t', hxt, hft⟩ := run_bind_eq_some.mp hrun
  rcases hx.cut a t' hxt with hpast | hE' | ⟨t, rfl, hy⟩
  · exact Or.inl ((hf a s).drops.past hpast hft)
  · exact (hE a t' hE' b u hft).imp_right Or.inl
  · refine ((hf a t).cut b u hft).imp_right (Or.imp_right ?_)
    rintro ⟨u, rfl, hg⟩
    exact ⟨u, rfl, run_bind_eq_some.mpr ⟨a, t, hy, hg⟩⟩

theorem Cuts.bind (hx : Cuts after Nowhere s x y) (hf : ∀ a t, Cuts after F t (f a) (g a)) :
    Cuts after F s (x >>= f) (y >>= g) :=
  hx.bind_of hf fun _ _ h => h.elim

theorem Cuts.keeps {z : Read α} (hx : Cuts after E s x y) (hy : Keeps s y z) : Cuts after E s x z := by
  refine ⟨hx.drops, fun a t' h => (hx.cut a t' h).imp_right (Or.imp_right ?_)⟩
  rintro ⟨t, rfl, hrun⟩
  exact ⟨t, rfl, hy _ hrun⟩

theorem cuts_pure (a : α) : Cuts after E s (pure a) (pure a) := by
  refine ⟨drops_pure a, fun b t' h => ?_⟩
  cases h
  exact Or.inr (Or.inr ⟨s, rfl, rfl⟩)

theorem cuts_failure : Cuts after E s failure y :=
  ⟨takes_failure.drops, fun _ _ h => nomatch h⟩

theorem cuts_ite {p q : Prop} [Decidable p] [Decidable q] {x₁ x₂ y₁ y₂ : Read α} (hpq : p ↔ q)
    (h₁ : Cuts after E s x₁ y₁) (h₂ : Cuts after E s x₂ y₂) :
    Cuts after E s (if p then x₁ else x₂) (if q then y₁ else y₂) := by
  by_cases hp : p
  · rw [if_pos hp, if_pos (hpq.mp hp)]
    exact h₁
  · rw [if_neg hp, if_neg (mt hpq.mpr hp)]
    exact h₂

theorem cuts_guard (p : Prop) [Decidable p] : Cuts after Nowhere s (guard p : Read Unit) (guard p) := by
  unfold guard
  exact cuts_ite Iff.rfl (cuts_pure ()) cuts_failure

theorem cuts_ofOption (o : Option α) : Cuts after E s (Read.ofOption o) (Read.ofOption o) := by
  cases o with
  | none => exact cuts_failure
  | some a => exact cuts_pure a

/-! ### Looking ahead and moving on -/

/-- Where the text that is left is looked at, whether the reader drops is said of the whole. -/
theorem cuts_rest {f g : List Char → Read β} (hdrops : Drops (Read.rest >>= f))
    (h : Cuts after F s (f (s.rest ++ ')' :: after)) (g s.rest)) :
    Cuts after F s (Read.rest >>= f) (Read.rest >>= g) :=
  ⟨hdrops, h.cut⟩

theorem cuts_isNext {text : String} (htext : ')' ∉ text.toList) :
    Cuts after Nowhere s (Read.isNext text) (Read.isNext text) := by
  refine ⟨drops_isNext text, fun b t' h => Or.inr (Or.inr ⟨s, ?_⟩)⟩
  rw [run_isNext, Cursor.before, isPrefixOf_append_paren htext] at h
  cases h
  exact ⟨rfl, rfl⟩

theorem cuts_get {f g : Cursor → Read β} (hdrops : Drops (get >>= f))
    (h : Cuts after F s (f (s.before after)) (g s)) : Cuts after F s (get >>= f) (get >>= g) :=
  ⟨hdrops, h.cut⟩

/-- The next character is one of the text, or it is the parenthesis. -/
theorem cuts_current_of {f g : Char → Read β} (hdrops : ∀ c, Drops (f c))
    (hf : ∀ c l, s.rest = c :: l → Cuts after F s (f c) (g c))
    (hend : s.rest = [] → ∀ b u, StateT.run (f ')') (s.before after) = some (b, u) → u.Past after ∨ F b u) :
    Cuts after F s (Read.current >>= f) (Read.current >>= g) := by
  refine ⟨drops_current.bind hdrops, fun b u h => ?_⟩
  obtain ⟨c, t', hc, hrun⟩ := run_bind_eq_some.mp h
  obtain ⟨rfl, l, hrest⟩ := exists_of_run_current hc
  cases hs : s.rest with
  | nil =>
    obtain rfl : ')' = c := (List.cons.inj ((facing_before hs).symm.trans hrest)).1
    exact (hend hs b u hrun).imp_right Or.inl
  | cons d m =>
    obtain rfl : d = c := by
      rw [Cursor.before, hs] at hrest
      exact (List.cons.inj hrest).1
    refine ((hf d m hs).cut b u hrun).imp_right (Or.imp_right ?_)
    rintro ⟨u, rfl, hg⟩
    have hcurrent : StateT.run Read.current s = some (d, s) := by
      rw [run_current, hs]
      rfl
    exact ⟨u, rfl, run_bind_eq_some.mpr ⟨d, s, hcurrent, hg⟩⟩

theorem cuts_current {f g : Char → Read β} (hf : ∀ c, Cuts after F s (f c) (g c)) (hend : Takes (f ')')) :
    Cuts after F s (Read.current >>= f) (Read.current >>= g) :=
  cuts_current_of (fun c => (hf c).drops) (fun c _ _ => hf c) fun hs _ _ h =>
    Or.inl (hend.past (facing_before hs) h)

theorem cuts_modify {f g : Cursor → Cursor} (hdrops : Drops (modify f : Read Unit))
    (h : f (s.before after) = (g s).before after) :
    Cuts after Nowhere s (modify f : Read Unit) (modify g) := by
  refine ⟨hdrops, fun a t' hrun => Or.inr (Or.inr ?_)⟩
  cases hrun
  exact ⟨g s, h, rfl⟩

/-- Characters are skipped on both sides, unless the parenthesis is among them. -/
theorem cuts_skip (count : Nat) : Cuts after Nowhere s (Read.skip count) (Read.skip count) := by
  refine ⟨drops_skip count, fun a t' h => ?_⟩
  cases h
  by_cases hcount : count ≤ s.rest.length
  · refine Or.inr (Or.inr ⟨{ s with rest := s.rest.drop count }, ?_, rfl⟩)
    show { s.before after with rest := (s.rest ++ ')' :: after).drop count } = _
    rw [List.drop_append_of_le_length hcount]
    rfl
  · refine Or.inl ?_
    show ((s.rest ++ ')' :: after).drop count).length ≤ after.length
    rw [List.length_drop, List.length_append, List.length_cons]
    omega

/-- Blanks end in front of a closing parenthesis, or a comment goes past it. -/
theorem afterBlanks_append_paren (inComment : Bool) (l after : List Char) :
    afterBlanks inComment (l ++ ')' :: after) = afterBlanks inComment l ++ ')' :: after ∨
      (afterBlanks inComment (l ++ ')' :: after)).length ≤ after.length := by
  induction l generalizing inComment with
  | nil =>
    cases inComment with
    | false => exact Or.inl (by simp [afterBlanks, not_isBlank_paren])
    | true => exact Or.inr (length_afterBlanks true after)
  | cons c l ih =>
    rw [List.cons_append, afterBlanks, afterBlanks]
    by_cases hcomment : inComment = true
    · simpa only [if_pos hcomment] using ih (c != '\n')
    · by_cases hblank : isBlank c = true
      · simpa only [if_neg hcomment, if_pos hblank] using ih false
      · by_cases hsign : c = '#'
        · simpa only [if_neg hcomment, if_neg hblank, if_pos hsign] using ih true
        · simp only [if_neg hcomment, if_neg hblank, if_neg hsign]
          exact Or.inl rfl

theorem cuts_blanks : Cuts after Nowhere s Read.blanks Read.blanks := by
  refine ⟨drops_blanks, fun a t' h => ?_⟩
  obtain ⟨rest, verbose, names⟩ := s
  cases verbose with
  | false =>
    cases h
    exact Or.inr (Or.inr ⟨_, rfl, rfl⟩)
  | true =>
    cases h
    rcases afterBlanks_append_paren false rest after with hrest | hpast
    · refine Or.inr (Or.inr ⟨⟨afterBlanks false rest, true, names⟩, ?_, rfl⟩)
      show Cursor.mk (afterBlanks false (rest ++ ')' :: after)) true names = _
      rw [hrest]
      rfl
    · exact Or.inl hpast

theorem cuts_advance : Cuts after Nowhere s Read.advance Read.advance := (cuts_skip 1).bind fun _ _ => cuts_blanks

theorem cuts_expect (c : Char) : Cuts after Nowhere s (Read.expect c) (Read.expect c) := by
  refine cuts_current (fun d => (cuts_guard (d = c)).bind fun _ _ => cuts_skip 1) ?_
  exact (drops_guard (')' = c)).bind_takes fun _ => takes_skip 0

theorem cuts_takeWhile (p : Char → Bool) (n : Nat) :
    Cuts after Nowhere s (Read.takeWhile p n) (Read.takeWhile p n) := by
  -- on the fuel, which is the same on both sides
  induction n generalizing s with
  | zero => exact cuts_pure []
  | succ n ih =>
    cases hs : s.rest with
    | nil =>
      refine ⟨drops_takeWhile p (n + 1), fun a t' h => ?_⟩
      have hbefore : (s.before after).rest = ')' :: after := facing_before hs
      rw [run_takeWhile_cons p n hbefore] at h
      split at h
      · obtain ⟨_, u, hadvance, hrun⟩ := run_bind_eq_some.mp h
        have hpast : u.Past after := takes_advance.past hbefore hadvance
        exact Or.inl (((drops_takeWhile p n).bind fun _ => drops_pure _).past hpast hrun)
      · cases h
        exact Or.inr (Or.inr ⟨s, rfl, run_takeWhile_nil p (n + 1) hs⟩)
    | cons c l =>
      refine ⟨drops_takeWhile p (n + 1), fun a t' h => ?_⟩
      have hbefore : (s.before after).rest = c :: (l ++ ')' :: after) := by
        rw [Cursor.before, hs]
        rfl
      rw [run_takeWhile_cons p n hbefore] at h
      rw [run_takeWhile_cons p n hs]
      refine Cuts.cut (cuts_ite Iff.rfl ?_ (cuts_pure [])) a t' h
      exact cuts_advance.bind fun _ _ => ih.bind fun _ _ => cuts_pure _

theorem cuts_run (p : Char → Bool) : Cuts after Nowhere s (Read.run p) (Read.run p) := by
  refine cuts_rest (drops_run p) ((cuts_takeWhile p _).keeps (keeps_takeWhile p ?_ (Nat.le_refl _)))
  rw [List.length_append]
  exact Nat.le_add_right _ _

/-! ### Numbers and escapes -/

theorem cuts_trim : Cuts after Nowhere s (modify fun s => { s with rest := s.rest.dropWhile isBlank })
    (modify fun s => { s with rest := s.rest.dropWhile isBlank }) := by
  refine cuts_modify (drops_modify fun s => List.dropWhile_suffix isBlank) ?_
  show { s.before after with rest := (s.rest ++ ')' :: after).dropWhile isBlank } = _
  rw [dropWhile_isBlank_append_paren]
  rfl

theorem cuts_decimal : Cuts after Nowhere s decimal decimal := by
  refine cuts_trim.bind fun _ _ => (cuts_run _).bind fun digits _ => cuts_trim.bind fun _ _ => ?_
  exact (cuts_guard _).bind fun _ _ => (cuts_guard _).bind fun _ _ => cuts_pure _

theorem cuts_hexDigits (count : Nat) : Cuts after Nowhere s (hexDigits count) (hexDigits count) := by
  induction count generalizing s with
  | zero => exact cuts_pure []
  | succ count ih =>
    refine cuts_current (fun c => (cuts_guard _).bind fun _ _ => ?_) ?_
    · exact cuts_advance.bind fun _ _ => ih.bind fun _ _ => cuts_pure _
    · refine (drops_guard _).bind_takes fun _ => takes_advance.bind fun _ => ?_
      exact (drops_hexDigits count).bind fun _ => drops_pure _

theorem cuts_codePoint (count : Nat) : Cuts after Nowhere s (codePoint (count + 1)) (codePoint (count + 1)) := by
  refine cuts_advance.bind fun _ _ => cuts_current (fun c => cuts_ite Iff.rfl ?_ ?_) (takes_ite ?_ ?_)
  · refine cuts_advance.bind fun _ _ => (cuts_run _).bind fun digits _ => cuts_current (fun d => ?_) ?_
    · refine (cuts_guard _).bind fun _ _ => cuts_advance.bind fun _ _ => ?_
      exact (cuts_ofOption _).bind fun _ _ => cuts_pure _
    · refine (drops_guard _).bind_takes fun _ => takes_advance.bind fun _ => ?_
      exact (drops_ofOption _).bind fun _ => drops_pure _
  · exact (cuts_hexDigits _).bind fun digits _ => (cuts_ofOption _).bind fun _ _ => cuts_pure _
  · refine takes_advance.bind fun _ => (drops_run _).bind fun digits => drops_current.bind fun d => ?_
    refine (drops_guard _).bind fun _ => takes_advance.drops.bind fun _ => ?_
    exact (drops_ofOption _).bind fun _ => drops_pure _
  · exact (takes_hexDigits count).bind fun digits => (drops_ofOption _).bind fun _ => drops_pure _

theorem cuts_property (negated : Bool) : Cuts after Nowhere s (property negated) (property negated) := by
  refine cuts_advance.bind fun _ _ => cuts_current (fun c => cuts_ite Iff.rfl ?_ ?_) (takes_ite ?_ ?_)
  · refine cuts_advance.bind fun _ _ => (cuts_run _).bind fun text _ => ?_
    exact (cuts_expect _).bind fun _ _ => cuts_pure _
  · exact (cuts_guard _).bind fun _ _ => cuts_advance.bind fun _ _ => cuts_pure _
  · refine takes_advance.bind fun _ => (drops_run _).bind fun text => ?_
    exact (takes_expect _).drops.bind fun _ => drops_pure _
  · exact (drops_guard _).bind_takes fun _ => takes_advance.bind fun _ => drops_pure _

/-- A brace is next, and a reader that goes over it and what blanks follow comes to the parenthesis, or past it. -/
def Cursor.Stuck (t : Cursor) (after : List Char) : Prop :=
  (∃ l, t.rest = '\x7b' :: l) ∧
    ∀ u, StateT.run Read.advance t = some ((), u) → u.Past after ∨ u.Facing after

theorem exists_of_isPrefixOf_brace {l : List Char} (h : "\x7b".toList.isPrefixOf l = true) :
    ∃ m, l = '\x7b' :: m := by
  obtain ⟨m, rfl⟩ := List.isPrefixOf_iff_prefix.mp h
  exact ⟨m, rfl⟩

theorem cuts_edgeName : Cuts after Nowhere s edgeName edgeName := by
  refine (cuts_run _).bind fun name _ => (cuts_expect _).bind fun _ _ => ?_
  split
  all_goals first | exact cuts_pure _ | exact cuts_failure

theorem cuts_wordEdge : Cuts after (fun _ t => t.Stuck after) s wordEdge wordEdge := by
  refine ⟨drops_wordEdge, fun a t' h => ?_⟩
  have hnext : "\x7b".toList.isPrefixOf (s.before after).rest = "\x7b".toList.isPrefixOf s.rest :=
    isPrefixOf_append_paren (by decide) s.rest after
  rw [run_wordEdge, hnext] at h
  rw [run_wordEdge]
  split at h
  · next hbrace =>
    rw [if_pos hbrace]
    obtain ⟨l, hl⟩ := exists_of_isPrefixOf_brace (hnext.trans hbrace)
    obtain ⟨⟨c, t⟩, hcurrent, hname⟩ := Option.bind_eq_some_iff.mp h
    obtain ⟨⟨⟩, t₀, hadvance, hc⟩ := run_bind_eq_some.mp hcurrent
    obtain ⟨rfl, m, hm⟩ := exists_of_run_current hc
    -- Back at the brace, the reader would come to the same place once more.
    have hstuck (h : t.Past after ∨ t.Facing after) : (s.before after).Stuck after := by
      refine ⟨⟨l, hl⟩, fun u hu => ?_⟩
      cases hadvance.symm.trans hu
      exact h
    dsimp only at hname
    -- where the character behind the brace and the blanks stands: past the parenthesis, at it, or in the
    -- text
    rcases cuts_advance.cut _ _ hadvance with hpast | hnone | ⟨u, rfl, hu⟩
    · split at hname
      · exact Or.inl (drops_edgeName.past hpast hname)
      · cases hname
        exact Or.inr (Or.inl (hstuck (Or.inl hpast)))
    · exact hnone.elim
    · cases hrest : u.rest with
      | nil =>
        have hparen : (u.before after).rest = ')' :: after := facing_before hrest
        cases hparen.symm.trans hm
        rw [if_neg (by decide)] at hname
        cases hname
        exact Or.inr (Or.inl (hstuck (Or.inr hparen)))
      | cons d m' =>
        rw [Cursor.before, hrest] at hm
        cases hm
        have hrun : StateT.run (Read.advance >>= fun _ => Read.current) s = some (c, u) := by
          refine run_bind_eq_some.mpr ⟨(), u, hu, ?_⟩
          rw [run_current, hrest]
          rfl
        rw [hrun]
        dsimp only [Option.bind_some]
        split at hname
        · next hletter =>
          rw [if_pos hletter]
          exact (cuts_edgeName.cut a t' hname).imp_right (Or.imp_left False.elim)
        · next hletter =>
          cases hname
          rw [if_neg hletter]
          exact Or.inr (Or.inr ⟨s, rfl, rfl⟩)
  · next hbrace =>
    cases h
    rw [if_neg hbrace]
    exact Or.inr (Or.inr ⟨s, rfl, rfl⟩)

/-- Behind an assertion a reader may stand at a brace. -/
def EscapeStuck (after : List Char) (e : Escape) (t : Cursor) : Prop := (∃ a, e = .assertion a) ∧ t.Stuck after

theorem cuts_escape : Cuts after (EscapeStuck after) s escape escape := by
  refine (cuts_skip 1).bind fun _ _ => cuts_current (fun c => ?_) ((takes_skip 0).bind fun _ => ?_)
  · split
    · exact (cuts_codePoint 1).bind fun _ _ => cuts_pure _
    · exact (cuts_codePoint 3).bind fun _ _ => cuts_pure _
    · exact (cuts_codePoint 7).bind fun _ _ => cuts_pure _
    · exact (cuts_property false).bind fun _ _ => cuts_pure _
    · exact (cuts_property true).bind fun _ _ => cuts_pure _
    all_goals refine (cuts_skip 1).bind fun _ _ => ?_
    any_goals exact cuts_pure _
    · refine cuts_wordEdge.bind_of (fun _ _ => cuts_pure _) fun edge t hstuck b u h => ?_
      cases h
      exact Or.inr ⟨⟨_, rfl⟩, hstuck⟩
    · exact cuts_ite Iff.rfl (cuts_pure _) ((cuts_ofOption _).bind fun _ _ => cuts_pure _)
  · exact drops_ite (drops_pure _) ((drops_ofOption _).bind fun _ => drops_pure _)

end Cuts

end GuidedDecoding.Pattern
