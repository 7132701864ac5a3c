import GuidedDecoding.Proofs.Pattern.Cut

/-!
# Patterns in front of a closing parenthesis

A pattern that is read up to a closing parenthesis is a pattern by itself (`read?_of_facing`). If a text in its
parentheses comes out as a pattern, whether or not its own parentheses match, then a pattern stands in front of one
of the closing ones (`exists_front_of_anchored`).
-/

namespace GuidedDecoding.Pattern

open Unicode (isBlank)

section Cuts

variable {s t : Cursor} {after : List Char}

/-! ### Classes in brackets -/

theorem splitAt?_cons (separator c : Char) (l : List Char) :
    splitAt? [separator] (c :: l) =
      if separator = c then some ([], l)
      else (splitAt? [separator] l).map fun (before, after) => (c :: before, after) := by
  simp [splitAt?, List.isPrefixOf]

/-- The first separator stays the first one, whatever comes behind. -/
theorem splitAt?_append {separator : Char} {l before after : List Char}
    (h : splitAt? [separator] l = some (before, after)) (behind : List Char) :
    splitAt? [separator] (l ++ behind) = some (before, after ++ behind) := by
  induction l generalizing before with
  | nil => cases h
  | cons c l ih =>
    rw [splitAt?_cons] at h
    rw [List.cons_append, splitAt?_cons]
    split at h
    · next hc =>
      cases h
      exact if_pos hc
    · next hc =>
      obtain ⟨⟨front, back⟩, hsplit, hmap⟩ := Option.map_eq_some_iff.mp h
      cases hmap
      rw [if_neg hc, ih hsplit]
      rfl

/-- What is split further on than the parenthesis is split behind it. -/
theorem splitAt?_append_paren {l name rest : List Char} (hl : splitAt? [':'] l = none)
    (h : splitAt? [':'] (l ++ ')' :: after) = some (name, rest)) : rest.length ≤ after.length := by
  induction l generalizing name with
  | nil =>
    rw [List.nil_append, splitAt?_cons, if_neg (by decide)] at h
    obtain ⟨⟨front, back⟩, hsplit, hmap⟩ := Option.map_eq_some_iff.mp h
    cases hmap
    exact (splitAt?_suffix hsplit).length_le
  | cons c l ih =>
    rw [splitAt?_cons] at hl
    rw [List.cons_append, splitAt?_cons] at h
    split at h
    · next hc =>
      rw [if_pos hc] at hl
      cases hl
    · next hc =>
      rw [if_neg hc, Option.map_eq_none_iff] at hl
      obtain ⟨⟨front, back⟩, hsplit, hmap⟩ := Option.map_eq_some_iff.mp h
      cases hmap
      exact ih hl hsplit

/-- Without a colon and a bracket nothing is read. -/
theorem asciiBody_of_none {negated : Bool} {body : List Char}
    (h : ∀ name after, splitAt? [':'] body ≠ some (name, ']' :: after)) : asciiBody negated body = pure none := by
  unfold asciiBody
  split
  · next name after hsplit => exact absurd hsplit (h name after)
  · rfl

/-- A named class is taken as a whole in front of the parenthesis, or behind it. -/
theorem cut_asciiBody {negated : Bool} (body : List Char) {class? : Option ClassTree}
    (h : StateT.run (asciiBody negated (body ++ ')' :: after)) (s.before after) = some (class?, t)) :
    t.Past after ∨ ∃ u, t = u.before after ∧ StateT.run (asciiBody negated body) s = some (class?, u) := by
  -- a name that ends in the text ends there, and one that does not reaches past the parenthesis
  by_cases hbracket : ∃ name rest, splitAt? [':'] body = some (name, ']' :: rest)
  · obtain ⟨name, rest, hbody⟩ := hbracket
    unfold asciiBody at h ⊢
    rw [splitAt?_append hbody] at h
    rw [hbody]
    simp only [List.cons_append] at h ⊢
    cases hclass : Unicode.asciiClass? (String.ofList name) with
    | none =>
      rw [hclass] at h
      cases h
      exact Or.inr ⟨s, rfl, rfl⟩
    | some set =>
      rw [hclass] at h
      cases h
      exact Or.inr ⟨{ s with rest := rest }, rfl, rfl⟩
  · have hnone : asciiBody negated body = pure none :=
      asciiBody_of_none fun name rest hbody => hbracket ⟨name, rest, hbody⟩
    rw [hnone]
    unfold asciiBody at h
    split at h
    · next name rest hsplit =>
      have hbody : splitAt? [':'] body = none := by
        rw [Option.eq_none_iff_forall_ne_some]
        rintro ⟨name', _ | ⟨c, rest'⟩⟩ hbody
        · rw [splitAt?_append hbody] at hsplit
          cases hsplit
        · rw [splitAt?_append hbody] at hsplit
          cases hsplit
          exact hbracket ⟨_, _, hbody⟩
      split at h
      · cases h
        exact Or.inl (Nat.le_of_succ_le (splitAt?_append_paren hbody hsplit))
      · cases h
        exact Or.inr ⟨s, rfl, rfl⟩
    · cases h
      exact Or.inr ⟨s, rfl, rfl⟩

theorem run_asciiClass?_of_opened {body : List Char} (h : s.rest = '[' :: ':' :: body) :
    StateT.run asciiClass? s =
      StateT.run (if body.head? = some '^' then asciiBody true body.tail else asciiBody false body) s := by
  obtain ⟨rest, verbose, names⟩ := s
  subst h
  rw [asciiClass?_eq]
  rfl

/-- No more is read where no named class is opened. -/
theorem run_asciiClass?_of_not_opened (h : ∀ body, s.rest ≠ '[' :: ':' :: body) :
    StateT.run asciiClass? s = some (none, s) := by
  rw [asciiClass?_eq]
  refine run_bind_eq_some.mpr ⟨s.rest, s, rfl, ?_⟩
  split
  · next body hbody => exact absurd hbody (h body)
  · rfl

theorem cuts_asciiClass? : Cuts after Nowhere s asciiClass? asciiClass? := by
  refine ⟨drops_asciiClass?, fun a t h => ?_⟩
  by_cases hopened : ∃ body, s.rest = '[' :: ':' :: body
  · obtain ⟨body, hbody⟩ := hopened
    have hbefore : (s.before after).rest = '[' :: ':' :: (body ++ ')' :: after) := by
      rw [Cursor.before, hbody]
      rfl
    rw [run_asciiClass?_of_opened hbefore] at h
    rw [run_asciiClass?_of_opened hbody]
    cases body with
    | nil => exact (cut_asciiBody [] h).imp_right Or.inr
    | cons c body =>
      rw [List.cons_append, List.head?_cons, List.tail_cons] at h
      rw [List.head?_cons, List.tail_cons]
      split at h
      · next hc =>
        rw [if_pos hc]
        exact (cut_asciiBody body h).imp_right Or.inr
      · next hc =>
        rw [if_neg hc]
        exact (cut_asciiBody (c :: body) h).imp_right Or.inr
  · have hbefore (body : List Char) : (s.before after).rest ≠ '[' :: ':' :: body := by
      rw [Cursor.before]
      rcases hrest : s.rest with _ | ⟨c, _ | ⟨d, l⟩⟩
      · intro h
        cases h
      · intro h
        cases h
      · intro h
        cases h
        exact hopened ⟨l, hrest⟩
    rw [run_asciiClass?_of_not_opened hbefore] at h
    cases h
    exact Or.inr (Or.inr ⟨s, rfl, run_asciiClass?_of_not_opened fun body hbody => hopened ⟨body, hbody⟩⟩)
theorem cuts_classItem : Cuts after (EscapeStuck after) s classItem classItem := by
  refine cuts_current (fun c => cuts_ite Iff.rfl cuts_escape ?_) (takes_ite takes_escape ?_)
  · exact (cuts_skip 1).bind fun _ _ => cuts_pure _
  · exact (takes_skip 0).bind fun _ => drops_pure _

/-- An assertion is no item of a class. -/
theorem gives_classRangeEnd_assertion (a : Assertion) (c : Char) (next : Option Char) :
    Gives (classRangeEnd (.assertion a) c next) fun _ => False := by
  refine gives_ite gives_failure (gives_bind fun _ => gives_bind fun second => ?_)
  cases second <;> exact gives_failure

theorem cuts_classRangeEnd (first : Escape) (c : Char) {next next' : Option Char}
    (hnext : next = some ']' ∨ next = some '-' ↔ next' = some ']' ∨ next' = some '-') :
    Cuts after (fun _ t => t.Facing after) s (classRangeEnd first c next) (classRangeEnd first c next') := by
  refine cuts_ite (or_congr Iff.rfl hnext) ?_ (cuts_advance.bind fun _ _ => cuts_classItem.bind_of ?_ ?_)
  · split
    · exact cuts_pure _
    · exact cuts_pure _
    · exact cuts_failure
  · intro second t
    split
    · exact (cuts_guard _).bind fun _ _ => cuts_pure _
    · exact cuts_failure
  · rintro second t ⟨⟨a, rfl⟩, -⟩ b u h
    cases first <;> cases h

/-- A single item of a class may be taken up to the parenthesis. -/
theorem cuts_classRange : Cuts after (fun _ t => t.Facing after) s classRange classRange := by
  rw [classRange_eq]
  refine cuts_classItem.bind_of (fun first _ => cuts_blanks.bind fun _ t => ?_) ?_
  · refine cuts_current_of (fun c => drops_get.bind fun s => drops_classRangeEnd first c _) (fun c l hs => ?_) ?_
    · refine cuts_get (drops_get.bind fun s => drops_classRangeEnd first c _) (cuts_classRangeEnd first c ?_)
      rw [Cursor.before, hs]
      exact or_congr (afterHyphen?_append_paren (Or.inl rfl) t.verbose l after)
        (afterHyphen?_append_paren (Or.inr rfl) t.verbose l after)
    · intro hs b u h
      -- The parenthesis is no hyphen, so that the item is taken by itself.
      refine Or.inr ?_
      obtain ⟨u', v, hget, h⟩ := run_bind_eq_some.mp h
      cases hget
      cases first with
      | literal l =>
        cases h
        exact facing_before hs
      | named n =>
        cases h
        exact facing_before hs
      | assertion a => exact (gives_classRangeEnd_assertion a _ _ _ _ _ h).elim
  · rintro first t ⟨⟨a, rfl⟩, -⟩ b u h
    have hgives (c : Char) : Gives (get >>= fun s : Cursor => classRangeEnd (.assertion a) c
        (afterHyphen? s.verbose (s.rest.drop 1))) fun _ => False :=
      gives_bind fun s => gives_classRangeEnd_assertion a c _
    exact (gives_bind (fun _ => gives_bind hgives) t b u h : False).elim

theorem cuts_classHyphens (negated : Bool) :
    Cuts after Nowhere s (classHyphens negated) (classHyphens negated) := by
  refine (cuts_run _).bind fun hyphens _ => (cuts_isNext (by decide)).bind fun _ _ => ?_
  exact cuts_ite Iff.rfl (cuts_advance.bind fun _ _ => cuts_pure _) (cuts_pure _)

theorem cuts_classOpening : Cuts after Nowhere s classOpening classOpening := by
  refine cuts_advance.bind fun _ _ => (cuts_isNext (by decide)).bind fun negated _ => ?_
  exact cuts_ite Iff.rfl (cuts_advance.bind fun _ _ => cuts_classHyphens negated) (cuts_classHyphens negated)

theorem cuts_operation? : Cuts after Nowhere s operation? operation? := by
  refine (cuts_isNext (by decide)).bind fun _ _ => cuts_ite Iff.rfl (cuts_pure _) ?_
  refine (cuts_isNext (by decide)).bind fun _ _ => cuts_ite Iff.rfl (cuts_pure _) ?_
  exact (cuts_isNext (by decide)).bind fun _ _ => cuts_ite Iff.rfl (cuts_pure _) (cuts_pure _)

/-- A class in brackets goes past the parenthesis, or it ends before it. -/
theorem cuts_classBody (n : Nat) (pending : Option (SetOperation × ClassTree)) (items : List ClassTree) :
    Cuts after Nowhere s (classBody n pending items) (classBody n pending items) := by
  induction n generalizing s pending items with
  | zero => exact cuts_failure
  | succ n ih =>
    rw [classBody_succ]
    refine cuts_blanks.bind fun _ _ => cuts_current (fun c => ?_) (takes_classTurn (takes_classBody n) _ _ _)
    refine cuts_ite Iff.rfl ?_ (cuts_ite Iff.rfl ?_ ?_)
    · refine cuts_asciiClass?.bind fun ascii _ => ?_
      cases ascii with
      | some ascii => exact ih pending _
      | none =>
        refine cuts_classOpening.bind fun opening _ => ?_
        exact (ih none opening.2).bind fun body _ => ih pending _
    · exact (cuts_skip 1).bind fun _ _ => cuts_pure _
    · refine cuts_operation?.bind fun op _ => ?_
      cases op with
      | some op => exact (cuts_skip 2).bind fun _ _ => ih _ []
      | none =>
        -- Behind an item that stands in front of the parenthesis, the next turn takes the parenthesis.
        refine cuts_classRange.bind_of (fun item _ => ih pending _) fun item t hfacing body u h => ?_
        exact Or.inl ((takes_classBody n pending _).past hfacing h)

theorem cuts_bracketed : Cuts after Nowhere s bracketed bracketed := by
  refine cuts_classOpening.bind fun opening t => cuts_rest ?_ (Cuts.bind ?_ fun _ _ => cuts_pure _)
  · exact drops_rest.bind fun l => (takes_classBody _ none opening.2).drops.bind fun _ => drops_pure _
  · exact (cuts_classBody _ none opening.2).keeps (keeps_classBody (Nat.lt_succ_self _) none opening.2)

/-! ### Groups and repetitions -/

theorem cuts_groupNamed (name : List Char) : Cuts after Nowhere s (groupNamed name) (groupNamed name) := by
  refine (cuts_skip _).bind fun _ _ => (cuts_expect _).bind fun _ _ => ?_
  exact cuts_modify (drops_modify fun s => List.suffix_refl s.rest) rfl

/-- A name that goes on behind the parenthesis goes past it. -/
theorem past_of_groupNamed {name : List Char} {a : Unit} (hname : s.rest.length + 1 ≤ name.length)
    (h : StateT.run (groupNamed name) (s.before after) = some (a, t)) : t.Past after := by
  obtain ⟨_, u, hskip, h⟩ := run_bind_eq_some.mp h
  obtain ⟨_, v, hexpect, h⟩ := run_bind_eq_some.mp h
  have hu : u.Past after := by
    cases hskip
    show ((s.rest ++ ')' :: after).drop name.length).length ≤ after.length
    rw [List.length_drop, List.length_append, List.length_cons]
    omega
  have hv : v.Past after := (takes_expect _).drops.past hu hexpect
  cases h
  exact hv

theorem cuts_groupName : Cuts after Nowhere s groupName groupName := by
  refine cuts_get drops_groupName ?_
  by_cases hall : (s.rest.takeWhile (· != '>')).length = s.rest.length
  · have hname : s.rest.length + 1 ≤ ((s.before after).rest.takeWhile (· != '>')).length := by
      rw [Cursor.before, List.takeWhile_append, if_pos hall, List.takeWhile_cons_of_pos (by decide),
        List.length_append, List.length_cons]
      omega
    refine ⟨(drops_guard _).bind fun _ => drops_groupNamed _, fun a t h => Or.inl ?_⟩
    obtain ⟨_, u, hguard, h⟩ := run_bind_eq_some.mp h
    cases eq_of_guard hguard
    exact past_of_groupNamed hname h
  · have hname : (s.before after).rest.takeWhile (· != '>') = s.rest.takeWhile (· != '>') := by
      rw [Cursor.before, List.takeWhile_append, if_neg hall]
    dsimp only
    rw [hname]
    exact (cuts_guard _).bind fun _ _ => cuts_groupNamed _

theorem not_switch_paren : switch? ')' = none := rfl

/-- Switches end in front of the parenthesis, or at it. -/
theorem settings_append_paren {on : Bool} {before read : Settings} {l rest : List Char}
    (h : settings on before (l ++ ')' :: after) = some (read, rest)) :
    rest = ')' :: after ∨
      ∃ rest', rest' ≠ [] ∧ rest = rest' ++ ')' :: after ∧ settings on before l = some (read, rest') := by
  -- on the letters; the parenthesis ends them if nothing before it does
  induction l generalizing on before with
  | nil =>
    rw [List.nil_append, settings.eq_def] at h
    cases h
    exact Or.inl rfl
  | cons c l ih =>
    rw [List.cons_append, settings.eq_def] at h
    rw [settings.eq_def]
    dsimp only at h ⊢
    by_cases hend : c = ':' ∨ c = ')'
    · rw [if_pos hend] at h ⊢
      cases h
      exact Or.inr ⟨c :: l, List.cons_ne_nil c l, rfl, rfl⟩
    rw [if_neg hend] at h ⊢
    by_cases hhyphen : c = '-'
    · rw [if_pos hhyphen] at h ⊢
      cases l with
      | nil =>
        dsimp only [List.nil_append] at h
        rw [not_switch_paren, if_neg (by simp)] at h
        cases h
      | cons d l =>
        dsimp only [List.cons_append] at h ⊢
        split at h
        · next hon =>
          rw [if_pos hon]
          exact ih h
        · cases h
    rw [if_neg hhyphen] at h ⊢
    cases hw : switch? c with
    | none =>
      rw [hw] at h
      cases h
    | some w =>
      rw [hw] at h
      dsimp only at h ⊢
      split at h
      · cases h
      · next hnew =>
        rw [if_neg hnew]
        exact ih h

theorem cuts_switchesKind (read : Settings) (next : Option Char) :
    Cuts after Nowhere s (switchesKind read next) (switchesKind read next) :=
  cuts_ite Iff.rfl (cuts_pure _) ((cuts_guard _).bind fun _ _ => cuts_pure _)

theorem cuts_switches : Cuts after Nowhere s switches switches := by
  refine ⟨drops_switches, fun op t h => ?_⟩
  rw [run_switches] at h ⊢
  obtain ⟨⟨read, rest⟩, hsettings, hkind⟩ := Option.bind_eq_some_iff.mp h
  dsimp only at hkind
  rcases settings_append_paren hsettings with rfl | ⟨rest', hrest', rfl, hread⟩
  · exact Or.inl ((drops_switchesKind _ _).length_le hkind)
  · rw [List.drop_append_of_le_length (List.length_pos_iff.mpr hrest'),
      List.head?_append_of_ne_nil _ hrest'] at hkind
    rw [hread]
    exact (cuts_switchesKind read rest'.head?).cut op t hkind

theorem cuts_opening : Cuts after Nowhere s opening opening := by
  refine cuts_advance.bind fun _ _ => ?_
  iterate 4 refine (cuts_isNext (by decide)).bind fun _ _ => ?_
  refine cuts_ite Iff.rfl cuts_failure ((cuts_isNext (by decide)).bind fun _ _ => cuts_ite Iff.rfl ?_ ?_)
  · exact (cuts_skip 3).bind fun _ _ => cuts_groupName.bind fun _ _ => cuts_pure _
  refine (cuts_isNext (by decide)).bind fun _ _ => cuts_ite Iff.rfl ?_ ?_
  · exact (cuts_skip 2).bind fun _ _ => cuts_groupName.bind fun _ _ => cuts_pure _
  refine (cuts_isNext (by decide)).bind fun _ _ => cuts_ite Iff.rfl ?_ (cuts_pure _)
  exact (cuts_skip 1).bind fun _ _ => cuts_switches

theorem cuts_preference : Cuts after Nowhere s preference preference :=
  (cuts_isNext (by decide)).bind fun _ _ => cuts_ite Iff.rfl (cuts_skip 1) (cuts_pure _)

theorem cuts_boundsEnd (min : Nat) (max : Option Nat) :
    Cuts after Nowhere s (boundsEnd min max) (boundsEnd min max) := by
  refine cuts_current (fun c => (cuts_guard _).bind fun _ _ => cuts_advance.bind fun _ _ => ?_) ?_
  · exact cuts_preference.bind fun _ _ => cuts_pure _
  · refine (drops_guard _).bind_takes fun _ => takes_advance.bind fun _ => ?_
    exact drops_preference.bind fun _ => drops_pure _

theorem cuts_bounds : Cuts after Nowhere s bounds bounds := by
  refine cuts_advance.bind fun _ _ => cuts_decimal.bind fun min _ => cuts_current (fun c => ?_) ?_
  · refine cuts_ite Iff.rfl ?_ (cuts_boundsEnd min (some min))
    refine cuts_advance.bind fun _ _ => cuts_current (fun d => cuts_ite Iff.rfl ?_ ?_) (takes_ite ?_ ?_)
    · exact cuts_boundsEnd min none
    · exact cuts_decimal.bind fun max _ => cuts_boundsEnd min (some max)
    · exact takes_boundsEnd min none
    · exact drops_decimal.bind_takes fun max => takes_boundsEnd min (some max)
  · refine takes_ite (takes_advance.bind fun _ => ?_) (takes_boundsEnd min (some min))
    refine drops_current.bind fun d => drops_ite (takes_boundsEnd min none).drops ?_
    exact drops_decimal.bind fun max => (takes_boundsEnd min (some max)).drops

theorem cuts_repetition? : Cuts after Nowhere s repetition? repetition? := by
  have hsign {t : Cursor} {min : Nat} {max : Option Nat} : Cuts after Nowhere t
      (do Read.skip 1; preference; return some (min, max)) (do Read.skip 1; preference; return some (min, max)) :=
    (cuts_skip 1).bind fun _ _ => cuts_preference.bind fun _ _ => cuts_pure _
  refine cuts_rest drops_repetition? ?_
  cases hs : s.rest with
  | nil => exact cuts_pure none
  | cons c l =>
  rw [List.cons_append, List.head?_cons, List.head?_cons]
  split
  · exact hsign
  · exact hsign
  · exact hsign
  · exact cuts_bounds.bind fun _ _ => cuts_pure _
  · exact cuts_pure none

theorem cuts_leaf : Cuts after (fun _ t => t.Stuck after) s leaf leaf := by
  refine cuts_current (fun c => ?_) ((takes_skip 0).bind fun _ => drops_pure _)
  split
  · refine cuts_escape.bind_of (fun e _ => ?_) fun e t hstuck tree u h => ?_
    · cases e <;> exact cuts_pure _
    · obtain ⟨⟨a, rfl⟩, hstuck⟩ := hstuck
      cases h
      exact Or.inr hstuck
  all_goals exact (cuts_skip 1).bind fun _ _ => cuts_pure _

/-! ### Patterns -/

/-- No number begins with the parenthesis. -/
theorem not_decimal_of_facing (hs : s.Facing after) : StateT.run decimal s = none := by
  have htrim : StateT.run (modify fun s => { s with rest := s.rest.dropWhile isBlank } : Read Unit) s =
      some ((), s) := by
    obtain ⟨rest, verbose, names⟩ := s
    obtain rfl : rest = ')' :: after := hs
    show some ((), Cursor.mk ((')' :: after).dropWhile isBlank) verbose names) = _
    rw [List.dropWhile_cons, not_isBlank_paren]
    rfl
  have hdigits : StateT.run (Read.run Char.isDigit) s = some ([], s) := by
    have hlength : s.rest.length = after.length + 1 := congrArg List.length hs
    show StateT.run (Read.takeWhile Char.isDigit s.rest.length) s = _
    rw [hlength, run_takeWhile_cons _ _ hs, if_neg (by decide)]
    rfl
  -- the blanks around a number leave the parenthesis where it is, and it is no digit
  rw [Option.eq_none_iff_forall_ne_some]
  intro r h
  obtain ⟨_, t, htrim', h⟩ := run_bind_eq_some.mp h
  cases htrim.symm.trans htrim'
  obtain ⟨digits, t, hdigits', h⟩ := run_bind_eq_some.mp h
  cases hdigits.symm.trans hdigits'
  obtain ⟨_, t, htrim', h⟩ := run_bind_eq_some.mp h
  cases htrim.symm.trans htrim'
  obtain ⟨_, t, hguard, -⟩ := run_bind_eq_some.mp h
  cases hguard

theorem run_blanks_of_brace {l : List Char} (hs : s.rest = '\x7b' :: l) :
    StateT.run Read.blanks s = some ((), s) := by
  obtain ⟨rest, verbose, names⟩ := s
  obtain rfl : rest = '\x7b' :: l := hs
  cases verbose with
  | false => rfl
  | true =>
    have hblank : isBlank '\x7b' = false := by cbv
    show some ((), Cursor.mk (afterBlanks false ('\x7b' :: l)) true names) = _
    simp [afterBlanks, hblank]

/-- The bounds that such a brace opens go past the parenthesis. -/
theorem past_of_bounds (hs : s.Stuck after) {b : Nat × Option Nat} (h : StateT.run bounds s = some (b, t)) :
    t.Past after := by
  rw [bounds_eq] at h
  obtain ⟨⟨⟩, u, hadvance, h⟩ := run_bind_eq_some.mp h
  rcases hs.2 u hadvance with hpast | hfacing
  · exact drops_boundsInner.past hpast h
  · obtain ⟨min, v, hmin, -⟩ := run_bind_eq_some.mp h
    rw [not_decimal_of_facing hfacing] at hmin
    cases hmin

/-- From such a brace no branches lead on to the parenthesis. -/
theorem past_of_stuck {n : Nat} {done items : List Tree} {tree : Tree} (hs : s.Stuck after)
    (h : StateT.run (branches n done items) s = some (tree, t)) : t.Past after := by
  obtain ⟨l, hl⟩ := hs.1
  cases n with
  | zero => cases h
  | succ n =>
    rw [branches_succ] at h
    obtain ⟨_, u, hblanks, h⟩ := run_bind_eq_some.mp h
    cases (run_blanks_of_brace hl).symm.trans hblanks
    obtain ⟨m, u, hrest, h⟩ := run_bind_eq_some.mp h
    cases hrest
    rw [hl] at h
    obtain ⟨times, v, htimes, h⟩ := run_bind_eq_some.mp h
    have hpast : v.Past after := by
      obtain ⟨m, u, hrest, htimes⟩ := run_bind_eq_some.mp htimes
      cases hrest
      rw [hl] at htimes
      obtain ⟨b, w, hbounds, htimes⟩ := run_bind_eq_some.mp htimes
      cases htimes
      exact past_of_bounds hs hbounds
    exact (drops_branchesRepeat (drops_branches n) done items times).past hpast h

theorem cuts_setVerbose (v : Bool → Bool) :
    Cuts after Nowhere s (modify fun c => { c with verbose := v c.verbose })
      (modify fun c => { c with verbose := v c.verbose }) :=
  cuts_modify (drops_setVerbose v) rfl

/-- Branches may be cut at the parenthesis, and so may all that they are made of. -/
theorem cuts_branches (n : Nat) (done items : List Tree) :
    Cuts after Nowhere s (branches n done items) (branches n done items) := by
  induction n generalizing s done items with
  | zero => exact cuts_failure
  | succ n ih =>
    have hdrops (done items : List Tree) : Drops (branches n done items) := drops_branches n done items
    have hgroup {t : Cursor} (w : Settings) (outer : Bool) :
        Cuts after Nowhere t (branchesGroup n done items w outer) (branchesGroup n done items w outer) := by
      refine (cuts_setVerbose fun _ => verboseAfter w outer).bind fun _ _ => (ih [] []).bind fun body _ => ?_
      refine (cuts_setVerbose fun _ => outer).bind fun _ _ => (cuts_expect _).bind fun _ _ => ?_
      exact ih done _
    rw [branches_succ]
    refine cuts_blanks.bind fun _ t => cuts_rest ?_ ?_
    · exact drops_rest.bind fun l => drops_branchesTurn hdrops done items l.head?
    cases hs : t.rest with
    -- Branches end at a parenthesis as they do at the end of the text.
    | nil => exact cuts_pure _
    | cons c l =>
    unfold branchesTurn
    rw [List.cons_append, List.head?_cons, List.head?_cons]
    split
    · next h => cases h
    · exact cuts_pure _
    · exact (cuts_skip 1).bind fun _ _ => ih _ []
    · exact cuts_bracketed.bind fun tree _ => ih done _
    · refine cuts_opening.bind fun op u => ?_
      cases op with
      | settings w => exact (cuts_setVerbose (verboseAfter w)).bind fun _ _ => ih done _
      | group w =>
        exact cuts_get (drops_get.bind fun c => drops_branchesGroup hdrops done items w c.verbose) (hgroup w _)
    · refine cuts_repetition?.bind fun times _ => ?_
      cases times with
      | some times => exact (cuts_ofOption _).bind fun body _ => (cuts_guard _).bind fun _ _ => ih done _
      | none =>
        -- A word boundary may have gone back to its brace.
        refine cuts_leaf.bind_of (fun tree _ => ih done _) fun tree v hstuck b u h => ?_
        exact Or.inl (past_of_stuck hstuck h)

/-- What is read up to the parenthesis is a pattern by itself. -/
theorem read?_of_facing {n : Nat} {front : List Char} {tree : Tree}
    (h : StateT.run (branches n [] []) { rest := front ++ ')' :: after } = some (tree, t))
    (ht : t.Facing after) (hdepth : tree.depth ≤ depthLimit) : Tree.read? front = some tree := by
  have hcuts : Cuts after Nowhere { rest := front } (branches n [] []) (branches (front.length + 1) [] []) :=
    (cuts_branches n [] []).keeps (keeps_branches (Nat.lt_succ_self _) [] [])
  have hlength : t.rest.length = after.length + 1 := congrArg List.length ht
  rcases hcuts.cut tree t h with hpast | hnone | ⟨u, rfl, hu⟩
  · have hle : t.rest.length ≤ after.length := hpast
    omega
  · exact hnone.elim
  · refine read?_eq_some_iff.mpr ⟨u, hu, List.eq_nil_of_length_eq_zero ?_, hdepth⟩
    have hrest : (u.before after).rest.length = u.rest.length + (after.length + 1) := List.length_append
    omega

end Cuts

/-! ### Patterns in their parentheses -/

theorem exists_facing_of_expect {s t : Cursor} (h : StateT.run (Read.expect ')') s = some ((), t)) :
    ∃ after, s.Facing after := by
  obtain ⟨c, u, hcurrent, hrest⟩ := run_bind_eq_some.mp h
  obtain ⟨_, v, hguard, -⟩ := run_bind_eq_some.mp hrest
  obtain rfl : c = ')' := gives_guard _ _ _ hguard
  obtain ⟨-, l, hl⟩ := exists_of_run_current hcurrent
  exact ⟨l, hl⟩

/-- Where the parentheses that a pattern is put into come out as a pattern, what stands in front of one of the
closing parentheses is a pattern by itself. -/
theorem exists_front_of_anchored {text : String} {w : Tree} (h : Tree.read? (anchored text) = some w) :
    ∃ front back t, text.toList ++ closing = front ++ ')' :: back ∧ Tree.read? front = some t := by
  obtain ⟨v, hrun, -, hdepth⟩ := read?_eq_some_iff.mp h
  rw [anchored_eq, run_branches_group] at hrun
  obtain ⟨body, x, hbody, hrun⟩ := run_bind_eq_some.mp hrun
  obtain ⟨_, y, hset, hrun⟩ := run_bind_eq_some.mp hrun
  obtain ⟨⟨⟩, z, hexpect, hrest⟩ := run_bind_eq_some.mp hrun
  cases hset
  obtain ⟨back, hfacing⟩ := exists_facing_of_expect hexpect
  have hx : x.rest = ')' :: back := hfacing
  obtain ⟨front, hfront⟩ := drops_branches _ _ _ _ _ _ hbody
  rw [hx] at hfront
  have hbodyDepth : body.depth ≤ depthLimit := by
    have hw := gives_branches_depth _ _ _ _ _ _ hrest (.group [] body) (by simp)
    rw [Tree.depth] at hw
    omega
  refine ⟨front, back, body, hfront.symm, ?_⟩
  exact read?_of_facing (by rw [hfront]; exact hbody) hx hbodyDepth

end GuidedDecoding.Pattern
