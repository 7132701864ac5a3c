import GuidedDecoding.Proofs.Pattern.Closing
import GuidedDecoding.Proofs.Pattern.Language

/-!
# Patterns in their parentheses

If a text is a pattern by itself, then what is read of the text in parentheses with `$` behind it is a group of
that pattern and the assertion (`read?_anchored`). A walk of the pattern is therefore complete behind exactly
the texts that the pattern matches by itself (`isComplete_start_run_iff`).
-/

namespace GuidedDecoding.Pattern

open Unicode (isBlank)

section Frames

variable {s t : Cursor}

/-! ### Escapes and classes -/

theorem frames_escape (h : 1 ≤ s.rest.length) : Frames s escape escape := by
  refine (frames_skip h).bind fun _ _ _ => frames_current fun c l hrest => ?_
  have hlength := length_pos_of_rest hrest
  split
  · exact (frames_codePoint 2 hlength).bind fun _ _ _ => frames_pure _ _
  · exact (frames_codePoint 4 hlength).bind fun _ _ _ => frames_pure _ _
  · exact (frames_codePoint 8 hlength).bind fun _ _ _ => frames_pure _ _
  · exact (frames_property false hlength).bind fun _ _ _ => frames_pure _ _
  · exact (frames_property true hlength).bind fun _ _ _ => frames_pure _ _
  all_goals refine (frames_skip hlength).bind fun _ _ _ => ?_
  any_goals exact frames_pure _ _
  · exact (frames_wordEdge _).bind fun _ _ _ => frames_pure _ _
  · split
    · exact frames_pure _ _
    · exact frames_ofOption fun _ _ => frames_pure _ _

/-- A colon is found in front of the closing or not at all. -/
theorem splitAt?_closing (l : List Char) :
    splitAt? [':'] (l ++ closing) = (splitAt? [':'] l).map fun (before, after) => (before, after ++ closing) := by
  induction l with
  | nil => rfl
  | cons c l ih =>
    rw [List.cons_append, splitAt?, splitAt?, ih]
    by_cases hc : ':' = c
    · subst hc
      rfl
    · simp [List.isPrefixOf, hc, Function.comp_def]

/-- What is read behind the colon that opens a named class. -/
def asciiBody (negated : Bool) (body : List Char) : Read (Option ClassTree) :=
  match splitAt? [':'] body with
  | some (name, ']' :: after) =>
    match Unicode.asciiClass? (String.ofList name) with
    | some set => do
      modify fun s => { s with rest := after }
      return some (.named (.ascii set negated))
    | none => return none
  | _ => return none

/-- A named class begins with a bracket and a colon; all else is left as it is. -/
theorem asciiClass?_eq :
    asciiClass? = (do
      match ← Read.rest with
      | '[' :: ':' :: body =>
        if body.head? = some '^' then asciiBody true body.tail else asciiBody false body
      | _ => return none) := by
  refine congrArg (Read.rest >>= ·) (funext fun start => ?_)
  split
  · next body =>
    split
    next negated rest hbody =>
    split at hbody
    · cases hbody
      rfl
    · next hnot =>
      cases hbody
      have hhead : body.head? ≠ some '^' := by
        intro h
        obtain ⟨tail, rfl⟩ := List.head?_eq_some_iff.mp h
        exact hnot tail rfl
      show _ = if _ then _ else _
      rw [if_neg hhead]
      rfl
  · simp

theorem frames_asciiBody (s : Cursor) (negated : Bool) (body : List Char) :
    Frames s (asciiBody negated body) (asciiBody negated (body ++ closing)) := by
  unfold asciiBody
  rw [splitAt?_closing]
  rcases hsplit : splitAt? [':'] body with _ | ⟨name, _ | ⟨c, after⟩⟩
  · exact frames_pure s none
  · exact frames_pure s none
  · by_cases hc : c = ']'
    · subst hc
      simp only [Option.map_some, List.cons_append]
      cases Unicode.asciiClass? (String.ofList name) with
      | none => exact frames_pure s none
      | some set =>
        intro a t h
        cases h
        exact ⟨_, rfl, Or.inl rfl⟩
    · simp [hc]; exact frames_pure s none

theorem frames_asciiClass? (s : Cursor) : Frames s asciiClass? asciiClass? := by
  rw [asciiClass?_eq]
  apply frames_rest
  split
  · next body hrest =>
    rw [hrest]
    show Frames s _ (if (body ++ closing).head? = some '^' then asciiBody true (body ++ closing).tail
      else asciiBody false (body ++ closing))
    cases body with
    | nil => exact frames_asciiBody s false []
    | cons c body =>
      rw [List.cons_append, List.head?_cons, List.head?_cons, List.tail_cons, List.tail_cons]
      split
      · exact frames_asciiBody s true body
      · exact frames_asciiBody s false (c :: body)
  · next hnot =>
    split
    · next body hbody =>
      -- The closing begins with neither of the two characters.
      rcases hrest : s.rest with _ | ⟨a, _ | ⟨b, l⟩⟩
      · rw [hrest] at hbody
        cases hbody
      · rw [hrest] at hbody
        cases hbody
      · rw [hrest] at hbody
        cases hbody
        exact absurd hrest (hnot l)
    · exact frames_pure s none

/-- Where there is no named class nothing is read. -/
theorem eq_of_asciiClass? (h : StateT.run asciiClass? s = some (none, t)) : t = s := by
  have hbody {negated : Bool} {body : List Char}
      (h : StateT.run (asciiBody negated body) s = some (none, t)) : t = s := by
    unfold asciiBody at h
    repeat' split at h
    all_goals cases h
    all_goals rfl
  rw [asciiClass?_eq] at h
  obtain ⟨l, u, hrest, h⟩ := run_bind_eq_some.mp h
  cases hrest
  repeat' split at h
  · exact hbody h
  · exact hbody h
  · cases h
    rfl

theorem frames_classItem (s : Cursor) : Frames s classItem classItem := by
  refine frames_current fun c l hrest => ?_
  have hlength := length_pos_of_rest hrest
  split
  · exact frames_escape hlength
  · exact (frames_skip hlength).bind fun _ _ _ => frames_pure _ _

/-- The first character is the same, unless there is none. -/
theorem head?_append_paren {d : Char} (hd : d ≠ ')') (l after : List Char) :
    (l ++ ')' :: after).head? = some d ↔ l.head? = some d := by
  cases l with
  | nil => simp [Ne.symm hd]
  | cons c l => exact Iff.rfl

/-- What decides whether a hyphen makes a range is the same with a closing parenthesis behind. -/
theorem afterHyphen?_append_paren {d : Char} (hd : d = ']' ∨ d = '-') (verbose : Bool) (l after : List Char) :
    afterHyphen? verbose (l ++ ')' :: after) = some d ↔ afterHyphen? verbose l = some d := by
  have hparen : d ≠ ')' := by
    rintro rfl
    revert hd
    decide
  have hsign : d ≠ '#' := by
    rintro rfl
    revert hd
    decide
  have hblank : isBlank d = false := by
    rcases hd with rfl | rfl <;> cbv
  -- hyphens and brackets stand in front of a comment, so it makes no difference where the comment ends
  -- A text that begins with such a character does so behind its blanks too.
  have hhead (h : l.head? = some d) : (l.dropWhile isBlank).head? = some d := by
    obtain ⟨tail, rfl⟩ := List.head?_eq_some_iff.mp h
    rw [List.dropWhile_cons, if_neg (by rw [hblank]; exact Bool.false_ne_true), List.head?_cons]
  cases verbose with
  | false => exact head?_append_paren hparen l after
  | true =>
    unfold afterHyphen?
    rw [if_pos rfl, if_pos rfl, dropWhile_isBlank_append_paren]
    cases hdrop : l.dropWhile isBlank with
    | nil =>
      rw [hdrop] at hhead
      constructor
      · intro h
        exact absurd (Option.some.inj h).symm hparen
      · intro h
        cases hhead h
    | cons c more =>
      by_cases hc : c = '#'
      · subst hc
        simp only [List.cons_append]
        rw [dropWhile_isBlank_append_paren]
        have hfirst : l.head? ≠ some d := by
          intro h
          rw [hdrop] at hhead
          exact hsign (Option.some.inj (hhead h)).symm
        cases hmore : more.dropWhile isBlank with
        | nil => simp [Ne.symm hparen, hfirst]
        | cons e rest => exact Iff.rfl
      · simp

theorem frames_classRange (s : Cursor) : Frames s classRange classRange := by
  refine (frames_classItem s).bind fun first t _ => (frames_blanks t).bind fun _ u _ => ?_
  refine frames_current fun c l hrest => frames_get (frames_rest ?_)
  rw [hrest]
  have hnext {d : Char} (hd : d = ']' ∨ d = '-') :=
    afterHyphen?_append_paren hd u.verbose l ['$']
  refine frames_ite (or_congr Iff.rfl (or_congr (hnext (Or.inl rfl)) (hnext (Or.inr rfl))))
    (fun _ => ?_) (fun _ => ?_)
  · split <;> first | exact frames_pure _ _ | exact frames_failure _ _
  · refine (frames_advance (length_pos_of_rest hrest)).bind fun _ v _ => ?_
    refine (frames_classItem v).bind fun second _ _ => ?_
    split
    · exact frames_guard fun _ => frames_pure _ _
    · exact frames_failure _ _

/-- What is read of the opening of a class behind its caret. -/
def classHyphens (negated : Bool) : Read (Bool × List ClassTree) := do
  let hyphens ← Read.run (· == '-')
  let items := hyphens.map fun c => ClassTree.char { char := c }
  if hyphens.isEmpty ∧ (← Read.isNext "]") then
    Read.advance
    return (negated, [.char { char := ']' }])
  else return (negated, items)

theorem frames_classHyphens (negated : Bool) (s : Cursor) :
    Frames s (classHyphens negated) (classHyphens negated) := by
  refine (frames_run (by decide) s).bind fun hyphens t _ => frames_isNext (by decide) fun b hb => ?_
  refine frames_ite Iff.rfl (fun hboth => ?_) (fun _ => frames_pure _ _)
  exact (frames_advance (hb hboth.2).length_le).bind fun _ _ _ => frames_pure _ _

theorem frames_classOpening (h : 1 ≤ s.rest.length) : Frames s classOpening classOpening := by
  refine (frames_advance h).bind fun _ t _ => frames_isNext (by decide) fun negated hnegated => ?_
  refine frames_ite Iff.rfl (fun htrue => ?_) (fun _ => frames_classHyphens negated t)
  exact (frames_advance (hnegated htrue).length_le).bind fun _ u _ => frames_classHyphens negated u

theorem frames_operation? (s : Cursor) : Frames s operation? operation? := by
  refine frames_isNext (by decide) fun inter _ => frames_ite Iff.rfl (fun _ => frames_pure _ _) fun _ => ?_
  refine frames_isNext (by decide) fun diff _ => frames_ite Iff.rfl (fun _ => frames_pure _ _) fun _ => ?_
  refine frames_isNext (by decide) fun symm _ => frames_ite Iff.rfl (fun _ => frames_pure _ _) fun _ => ?_
  exact frames_pure _ _

/-- An operation is written with two characters. -/
theorem two_le_of_operation? {op : SetOperation} (h : StateT.run operation? s = some (some op, t)) :
    2 ≤ t.rest.length := by
  have htwo {text : String} {b : Bool} {u v : Cursor} (htext : text.toList.length = 2)
      (hnext : StateT.run (Read.isNext text) u = some (b, v)) (hb : b = true) : 2 ≤ v.rest.length := by
    rw [run_isNext] at hnext
    cases hnext
    rw [← htext]
    exact (List.isPrefixOf_iff_prefix.mp hb).length_le
  obtain ⟨inter, u, hinter, h⟩ := run_bind_eq_some.mp h
  split at h
  · next hb =>
    cases h
    exact htwo rfl hinter hb
  obtain ⟨diff, v, hdiff, h⟩ := run_bind_eq_some.mp h
  split at h
  · next hb =>
    cases h
    exact htwo rfl hdiff hb
  obtain ⟨symm, w, hsymm, h⟩ := run_bind_eq_some.mp h
  split at h
  · next hb =>
    cases h
    exact htwo rfl hsymm hb
  · cases h

/-- More fuel changes nothing where the body of a class is read. -/
theorem follows_classBody {n k : Nat} (hle : n ≤ k) (s : Cursor)
    (pending : Option (SetOperation × ClassTree)) (items : List ClassTree) :
    Follows s (classBody n pending items) (classBody k pending items) := by
  -- on the first fuel; the second one suffices too, as both lose one unit with each item
  induction n generalizing k s pending items with
  | zero => exact ⟨frames_failure s _, fun r h => nomatch h⟩
  | succ n ih =>
    obtain ⟨k, rfl⟩ : ∃ j, k = j + 1 := ⟨k - 1, by omega⟩
    have hbody := @ih k (Nat.le_of_succ_le_succ hle)
    rw [classBody, classBody]
    refine (frames_blanks s).follows.bind fun _ t _ => follows_current fun c l hrest => ?_
    have hlength := length_pos_of_rest hrest
    split
    · refine (frames_asciiClass? t).follows.bind fun ascii u hascii => ?_
      cases ascii with
      | some ascii => exact hbody u _ _
      | none =>
        refine (frames_classOpening ?_).follows.bind fun opening v _ => ?_
        · rw [eq_of_asciiClass? hascii]
          exact hlength
        · exact (hbody v none opening.2).bind fun body w _ => hbody w _ _
    · split
      · exact ((frames_skip hlength).bind fun _ _ _ => frames_pure _ _).follows
      · refine (frames_operation? t).follows.bind fun op u hop => ?_
        cases op with
        | some op =>
          exact (frames_skip (two_le_of_operation? hop)).follows.bind fun _ v _ => hbody v _ _
        | none => exact (frames_classRange u).follows.bind fun item v _ => hbody v _ _

theorem follows_bracketed (h : 1 ≤ s.rest.length) : Follows s bracketed bracketed := by
  refine (frames_classOpening h).follows.bind fun opening t _ => ?_
  let close (body : ClassTree) : Read Tree := pure (.bracketed opening.1 body)
  have hbody {n k : Nat} (hle : n ≤ k) := (follows_classBody hle t none opening.2).bind (f := close) (g := close)
    fun _ u _ => (frames_pure u _).follows
  exact ⟨frames_rest (hbody (by rw [length_closing]; omega)).frames, Keeps.refl t _⟩

/-! ### Groups and repetitions -/

theorem frames_modify {f g : Cursor → Cursor} (h : g s.extend = (f s).extend) :
    Frames s (modify f) (modify g) := by
  intro a t hrun
  cases hrun
  exact ⟨_, rfl, Or.inl h⟩

theorem frames_groupName (s : Cursor) : Frames s groupName groupName := by
  apply frames_get
  have hlength := (List.takeWhile_prefix (l := s.rest) (· != '>')).length_le
  by_cases hall : (s.rest.takeWhile (· != '>')).length = s.rest.length
  · -- Without an angle bracket the name goes to the end, and no angle bracket follows.
    intro a t h
    obtain ⟨_, u, hguard, h⟩ := run_bind_eq_some.mp h
    obtain ⟨_, v, hskip, h⟩ := run_bind_eq_some.mp h
    obtain ⟨_, w, hexpect, -⟩ := run_bind_eq_some.mp h
    cases eq_of_guard hguard
    cases hskip
    exact absurd (List.drop_eq_nil_of_le (Nat.le_of_eq hall.symm)) (rest_ne_nil_of_expect hexpect)
  · have hname : s.extend.rest.takeWhile (· != '>') = s.rest.takeWhile (· != '>') := by
      rw [Cursor.extend, List.takeWhile_append, if_neg hall]
    dsimp only
    rw [hname]
    refine frames_guard fun _ => (frames_skip hlength).bind fun _ t _ => (frames_expect t _).bind fun _ u _ => ?_
    exact frames_modify rfl

/-- Switches end in front of a colon or a parenthesis, so what comes behind makes no difference. -/
theorem settings_append {on : Bool} {before read : Settings} {l after : List Char}
    (h : settings on before l = some (read, after)) (behind : List Char) :
    settings on before (l ++ behind) = some (read, after ++ behind) ∧ after ≠ [] := by
  fun_induction settings on before l with
  | case1 => cases h
  | case2 on before c rest hend =>
    cases h
    exact ⟨if_pos hend, List.cons_ne_nil c rest⟩
  | case3 on before d rest hon hhyphen ih =>
    obtain ⟨hbehind, hafter⟩ := ih h
    refine ⟨?_, hafter⟩
    rw [List.cons_append, List.cons_append, settings, if_neg hhyphen, if_pos rfl]
    exact (if_pos hon).trans hbehind
  | case4 => cases h
  | case5 => cases h
  | case6 => cases h
  | case7 on before c rest hend hhyphen w hw hnew ih =>
    obtain ⟨hbehind, hafter⟩ := ih h
    refine ⟨?_, hafter⟩
    rw [List.cons_append, settings.eq_def]
    dsimp only
    rw [if_neg hend, if_neg hhyphen, hw]
    exact (if_neg hnew).trans hbehind
  | case8 => cases h

/-- What is read behind the question mark of a group without a name. -/
def switches : Read Opening := do
  let (read, after) ← Read.ofOption (settings true [] (← Read.rest))
  modify fun s => { s with rest := after.drop 1 }
  if after.head? = some ':' then return .group read
  else
    guard (read ≠ [])
    return .settings read

/-- What switches introduce, where this is the character behind them. -/
def switchesKind (read : Settings) (next : Option Char) : Read Opening :=
  if next = some ':' then return .group read
  else do
    guard (read ≠ [])
    return .settings read

theorem run_switches (s : Cursor) :
    StateT.run switches s = (settings true [] s.rest).bind fun (read, after) =>
      StateT.run (switchesKind read after.head?) { s with rest := after.drop 1 } := by
  show (StateT.run (Read.ofOption (settings true [] s.rest)) s).bind _ = _
  cases settings true [] s.rest <;> rfl

theorem frames_switches (s : Cursor) : Frames s switches switches := by
  intro op t h
  rw [run_switches] at h
  obtain ⟨⟨read, after⟩, hsettings, hkind⟩ := Option.bind_eq_some_iff.mp h
  obtain ⟨hclosing, hafter⟩ := settings_append hsettings closing
  have hframes : Frames { s with rest := after.drop 1 } (switchesKind read after.head?)
      (switchesKind read after.head?) :=
    frames_ite Iff.rfl (fun _ => frames_pure _ _) fun _ => frames_guard fun _ => frames_pure _ _
  obtain ⟨t', hkind', hbeside⟩ := hframes op t hkind
  refine ⟨t', ?_, hbeside⟩
  rw [run_switches]
  refine Option.bind_eq_some_iff.mpr ⟨_, hclosing, ?_⟩
  dsimp only
  rw [List.drop_append_of_le_length (List.length_pos_iff.mpr hafter), List.head?_append_of_ne_nil _ hafter]
  exact hkind'

theorem frames_opening (h : 1 ≤ s.rest.length) : Frames s opening opening := by
  refine (frames_advance h).bind fun _ t _ => ?_
  iterate 4 refine frames_isNext (by decide) fun _ _ => ?_
  refine frames_ite Iff.rfl (fun _ => frames_failure _ _) fun _ => ?_
  refine frames_isNext (by decide) fun _ hnamed => ?_
  refine frames_ite Iff.rfl (fun htrue => ?_) fun _ => ?_
  · refine (frames_skip (hnamed htrue).length_le).bind fun _ u _ => ?_
    exact (frames_groupName u).bind fun _ _ _ => frames_pure _ _
  refine frames_isNext (by decide) fun _ hnamed => ?_
  refine frames_ite Iff.rfl (fun htrue => ?_) fun _ => ?_
  · refine (frames_skip (hnamed htrue).length_le).bind fun _ u _ => ?_
    exact (frames_groupName u).bind fun _ _ _ => frames_pure _ _
  refine frames_isNext (by decide) fun _ hsettings => ?_
  refine frames_ite Iff.rfl (fun htrue => ?_) fun _ => frames_pure _ _
  exact (frames_skip (hsettings htrue).length_le).bind fun _ u _ => frames_switches u

theorem frames_preference (s : Cursor) : Frames s preference preference := by
  refine frames_isNext (by decide) fun b hb => ?_
  exact frames_ite Iff.rfl (fun htrue => frames_skip (hb htrue).length_le) fun _ => frames_pure _ _

theorem frames_boundsEnd (min : Nat) (max : Option Nat) (s : Cursor) :
    Frames s (boundsEnd min max) (boundsEnd min max) := by
  refine frames_current fun c l hrest => frames_guard fun _ => ?_
  refine (frames_advance (length_pos_of_rest hrest)).bind fun _ t _ => ?_
  exact (frames_preference t).bind fun _ _ _ => frames_pure _ _

theorem frames_bounds (h : 1 ≤ s.rest.length) : Frames s bounds bounds := by
  refine (frames_advance h).bind fun _ t _ => (frames_decimal t).bind fun min u _ => ?_
  refine frames_current fun c l hrest => frames_ite Iff.rfl (fun _ => ?_) fun _ => ?_
  · refine (frames_advance (length_pos_of_rest hrest)).bind fun _ v _ => ?_
    refine frames_current fun d m hrest' => frames_ite Iff.rfl (fun _ => ?_) fun _ => ?_
    · exact frames_boundsEnd min none v
    · exact (frames_decimal v).bind fun max w _ => frames_boundsEnd min (some max) w
  · exact frames_boundsEnd min (some min) u

theorem frames_repetition? (s : Cursor) : Frames s repetition? repetition? := by
  have hsign (t : Cursor) (ht : 1 ≤ t.rest.length) (min : Nat) (max : Option Nat) : Frames t
      (do Read.skip 1; preference; return some (min, max)) (do Read.skip 1; preference; return some (min, max)) :=
    (frames_skip ht).bind fun _ u _ => (frames_preference u).bind fun _ _ _ => frames_pure _ _
  apply frames_rest
  cases hrest : s.rest with
  | nil => exact frames_pure s none
  | cons c l =>
  have hlength := length_pos_of_rest hrest
  rw [List.cons_append, List.head?_cons, List.head?_cons]
  split
  · exact hsign s hlength 0 (some 1)
  · exact hsign s hlength 0 none
  · exact hsign s hlength 1 none
  · exact (frames_bounds hlength).bind fun _ _ _ => frames_pure _ _
  · exact frames_pure _ _

theorem frames_leaf (s : Cursor) : Frames s leaf leaf := by
  refine frames_current fun c l hrest => ?_
  have hlength := length_pos_of_rest hrest
  split
  · refine (frames_escape hlength).bind fun e _ _ => ?_
    cases e <;> exact frames_pure _ _
  all_goals exact (frames_skip hlength).bind fun _ _ _ => frames_pure _ _

/-! ### Patterns -/

/-- More fuel changes nothing where branches are read. -/
theorem follows_branches {n k : Nat} (hle : n ≤ k) (s : Cursor) (done items : List Tree) :
    Follows s (branches n done items) (branches k done items) := by
  -- as in `follows_classBody`, and a group hands the statement down to its own branches
  induction n generalizing k s done items with
  | zero => exact ⟨frames_failure s _, fun r h => nomatch h⟩
  | succ n ih =>
    obtain ⟨k, rfl⟩ : ∃ j, k = j + 1 := ⟨k - 1, by omega⟩
    have hbranches := @ih k (Nat.le_of_succ_le_succ hle)
    rw [branches, branches]
    refine (frames_blanks s).follows.bind fun _ t _ => ?_
    refine follows_rest (fun _ => ⟨frames_pure _ _, Keeps.refl _ _⟩) fun c l l' hrest => ?_
    have hlength := length_pos_of_rest hrest
    rw [List.head?_cons, List.head?_cons]
    split
    · next h => cases h
    · exact (frames_pure t _).follows
    · exact (frames_skip hlength).follows.bind fun _ u _ => hbranches u _ _
    · exact (follows_bracketed hlength).bind fun tree u _ => hbranches u _ _
    · refine (frames_opening hlength).follows.bind fun op u _ => ?_
      cases op with
      | settings w =>
        refine Follows.bind (frames_modify ?_).follows fun _ v _ => hbranches v _ _
        rfl
      | group w =>
        refine follows_get ?_ rfl
        refine Follows.bind (frames_modify ?_).follows fun _ v _ => (hbranches v [] []).bind fun body x _ => ?_
        · rfl
        refine Follows.bind (frames_modify ?_).follows fun _ y _ => ?_
        · rfl
        exact (frames_expect y _).follows.bind fun _ z _ => hbranches z _ _
    · refine (frames_repetition? t).follows.bind fun times u _ => ?_
      cases times with
      | some times =>
        refine (follows_ofOption u _).bind fun body v _ => (follows_guard v _).bind fun _ w _ => ?_
        exact hbranches w _ _
      | none => exact (frames_leaf u).follows.bind fun tree v _ => hbranches v _ _

end Frames

/-! ### Parentheses -/

theorem anchored_eq (text : String) : anchored text = '(' :: '?' :: ':' :: (text.toList ++ closing) := rfl

theorem run_branches_group (fuel : Nat) (done items : List Tree) (l : List Char) :
    StateT.run (branches (fuel + 1) done items) { rest := '(' :: '?' :: ':' :: l } =
      StateT.run (do
        let body ← branches fuel [] []
        modify fun c => { c with verbose := false }
        Read.expect ')'
        branches fuel done (items ++ [.group [] body])) { rest := l } := rfl

theorem run_branches_dollar (fuel : Nat) (done items : List Tree) (names : List (List Char)) :
    StateT.run (branches (fuel + 2) done items) { rest := ['$'], names } =
      some (.ofBranches (done ++ [.ofItems (items ++ [.assertion .dollar])]), { rest := [], names }) := rfl

variable {text : String} {t w : Tree}

def Tree.enclosed (t : Tree) : Tree := .concatenation [.group [] t, .assertion .dollar]

/-- The parentheses and the group add two levels. -/
theorem depth_enclosed (t : Tree) : t.enclosed.depth = t.depth + 2 := by
  simp [Tree.enclosed, Tree.depth, Tree.depths]

/-- The closing and the opening are five characters. -/
theorem length_anchored (text : String) : (anchored text).length = text.toList.length + 5 := by
  rw [anchored_eq]
  simp [closing]

/-- A pattern with the closing behind it is read up to the closing, or to the end if a comment takes it in. -/
theorem exists_run_closing {n : Nat} (h : Tree.read? text.toList = some t) (hn : text.toList.length + 1 ≤ n) :
    ∃ s s' : Cursor, StateT.run (branches n [] []) { rest := text.toList ++ closing } = some (t, s') ∧
      s.rest = [] ∧ s.Beside s' := by
  obtain ⟨s, hrun, hrest⟩ := exists_run_of_read? h
  obtain ⟨s', hs', hbeside⟩ := (follows_branches hn { rest := text.toList } [] []).frames t s hrun
  exact ⟨s, s', hs', hrest, hbeside⟩

section Run

variable {n : Nat} {s : Cursor}

theorem run_anchored_of_extend (hs : s.rest = [])
    (hbody : StateT.run (branches (n + 2) [] []) { rest := text.toList ++ closing } = some (t, s.extend)) :
    StateT.run (branches (n + 3) [] []) { rest := anchored text } =
      some (t.enclosed, { rest := [], names := s.names }) := by
  rw [anchored_eq, run_branches_group]
  refine run_bind_eq_some.mpr ⟨t, s.extend, hbody, ?_⟩
  refine run_bind_eq_some.mpr ⟨(), { s.extend with verbose := false }, rfl, ?_⟩
  refine run_bind_eq_some.mpr ⟨(), { rest := ['$'], names := s.names }, ?_, ?_⟩
  · rw [Cursor.extend, hs]
    rfl
  · exact run_branches_dollar n [] [.group [] t] s.names

/-- Where a comment has taken in the closing, the group has no end. -/
theorem not_run_anchored_of_nil (hs : s.rest = [])
    (hbody : StateT.run (branches (n + 2) [] []) { rest := text.toList ++ closing } = some (t, s)) :
    StateT.run (branches (n + 3) [] []) { rest := anchored text } = none := by
  rw [anchored_eq, run_branches_group, Option.eq_none_iff_forall_ne_some]
  intro r hrun
  obtain ⟨body, x, hx, hrun⟩ := run_bind_eq_some.mp hrun
  cases hbody.symm.trans hx
  obtain ⟨_, y, hset, hrun⟩ := run_bind_eq_some.mp hrun
  cases hset
  obtain ⟨_, z, hexpect, -⟩ := run_bind_eq_some.mp hrun
  exact rest_ne_nil_of_expect hexpect hs

end Run

/-- A pattern in its parentheses is read as a group of it and the assertion. -/
theorem read?_anchored (h : Tree.read? text.toList = some t) (hw : Tree.read? (anchored text) = some w) :
    w = t.enclosed := by
  obtain ⟨v, hrun, -⟩ := exists_run_of_read? hw
  rw [length_anchored] at hrun
  obtain ⟨s, s', hbody, hrest, rfl | rfl⟩ :=
    exists_run_closing (n := text.toList.length + 5) h (by omega)
  · cases hrun.symm.trans (run_anchored_of_extend hrest hbody)
    rfl
  · cases hrun.symm.trans (not_run_anchored_of_nil hrest hbody)

/-- If a text is a pattern by itself, then in parentheses it is one too, unless it nests too deeply there or takes
in the closing. -/
theorem read?_anchored_iff (h : Tree.read? text.toList = some t) :
    (∃ w, Tree.read? (anchored text) = some w) ↔
      t.depth + 2 ≤ depthLimit ∧ Tree.read? (text.toList ++ closing) = none := by
  have hdepth : t.depth ≤ depthLimit := by
    obtain ⟨_, _, _, hdepth⟩ := read?_eq_some_iff.mp h
    exact hdepth
  obtain ⟨s, s', hrun, hrest, hbeside⟩ :=
    exists_run_closing (n := (text.toList ++ closing).length + 1) h (by rw [length_closing]; omega)
  -- The closing is taken in exactly if the text is read to its end.
  have hswallowed : Tree.read? (text.toList ++ closing) = none ↔ s' = s.extend := by
    rw [Option.eq_none_iff_forall_ne_some]
    constructor
    · intro hnone
      refine hbeside.resolve_right ?_
      rintro rfl
      exact hnone t (read?_eq_some_iff.mpr ⟨_, hrun, hrest, hdepth⟩)
    · rintro rfl w hw
      obtain ⟨v, hv, hend, -⟩ := read?_eq_some_iff.mp hw
      cases hv.symm.trans hrun
      cases (List.append_eq_nil_iff.mp hend).2
  have hbody : StateT.run (branches (text.toList.length + 5) [] []) { rest := text.toList ++ closing } =
      some (t, s') :=
    (follows_branches (by rw [length_closing]; omega) _ [] []).keeps _ hrun
  rw [hswallowed]
  constructor
  · rintro ⟨w, hw⟩
    obtain rfl : w = t.enclosed := read?_anchored h hw
    obtain ⟨v, hv, -, hwdepth⟩ := read?_eq_some_iff.mp hw
    rw [depth_enclosed] at hwdepth
    refine ⟨hwdepth, hbeside.resolve_right ?_⟩
    rintro rfl
    rw [length_anchored] at hv
    cases hv.symm.trans (not_run_anchored_of_nil hrest hbody)
  · rintro ⟨hle, rfl⟩
    refine ⟨t.enclosed, read?_eq_some_iff.mpr ⟨{ rest := [], names := s.names }, ?_, rfl, ?_⟩⟩
    · rw [length_anchored]
      exact run_anchored_of_extend hrest hbody
    · rw [depth_enclosed]
      exact hle

variable {p : Pattern}

/-- One expression behind the other needs more than single bytes if one of them does. -/
theorem isBytewise_andThen (e next : Expr) :
    (e.andThen next).isBytewise = (e.isBytewise && next.isBytewise) := by
  fun_cases Expr.andThen e next with
  | case1 => rfl
  | case2 => exact (Bool.and_true _).symm
  | case3 => rfl

/-- In its parentheses a pattern means the same, and its switches end with them. -/
theorem meaning?_enclosed (t : Tree) :
    t.enclosed.meaning? {} = (t.meaning? {}).map fun (e, _) => (e.andThen (.look .textEnd), {}) := by
  have hgroup : (Tree.group [] t).meaning? {} = (t.meaning? {}).map fun (e, _) => (e, {}) := by
    rw [Tree.meaning?]
    show (t.meaning? {}).bind _ = _
    cases t.meaning? {} <;> rfl
  rw [Tree.enclosed, Tree.meaning?, Tree.meanings?, hgroup]
  cases t.meaning? {} <;> rfl

/-- In its parentheses a pattern has a meaning when it has one by itself. -/
theorem expr?_enclosed (t : Tree) : t.enclosed.expr? = t.expr?.map (·.andThen (.look .textEnd)) := by
  unfold Tree.expr?
  rw [meaning?_enclosed]
  cases t.meaning? {} with
  | none => rfl
  | some r =>
    obtain ⟨e, m⟩ := r
    have hbytewise : (e.andThen (.look .textEnd)).isBytewise = e.isBytewise := by
      rw [isBytewise_andThen]
      exact Bool.and_true _
    show (guard _ >>= fun _ => pure _) = Option.map _ (guard _ >>= fun _ => pure _)
    rw [hbytewise]
    cases e.isBytewise <;> rfl

/-- A pattern in its parentheses asks for what the pattern asks for, up to the end of the text. -/
theorem exists_expr?_of_ofText? (h : Tree.read? text.toList = some t) (hp : ofText? text = some p) :
    ∃ e, t.expr? = some e ∧ p.expr = e.andThen (.look .textEnd) := by
  obtain ⟨w, hw, hexpr⟩ := Option.bind_eq_some_iff.mp hp
  obtain ⟨f, hf, hpure⟩ := Option.bind_eq_some_iff.mp hexpr
  cases hpure
  rw [read?_anchored h hw, expr?_enclosed] at hf
  obtain ⟨e, he, rfl⟩ := Option.map_eq_some_iff.mp hf
  exact ⟨e, he, rfl⟩

variable {e : Expr} {bytes : Bytes}

/-- For a whole text the end of the text adds nothing. -/
theorem matches_andThen_textEnd :
    (e.andThen (.look .textEnd)).Matches none bytes none ↔ e.Matches none bytes none := by
  rw [Expr.matches_andThen]
  constructor
  · rintro ⟨u, v, rfl, hu, hv, -⟩
    subst hv
    rwa [List.append_nil]
  · intro h
    exact ⟨bytes, [], (List.append_nil bytes).symm, h, rfl, rfl⟩

/-- A pattern begins with all of its repetitions sound. -/
theorem start_sound (hp : ofText? text = some p) : p.start.Sound := by
  intro f hf
  obtain rfl : f = p.expr := List.mem_singleton.mp hf
  exact ⟨ofText?_ordered hp, .between, Utf8.Reading.standing_between, ofText?_at hp⟩

/-- A walk is complete behind the texts that match. -/
theorem isComplete_run_start_iff (hp : ofText? text = some p) :
    (p.start.run bytes).isComplete = true ↔ p.expr.Matches none bytes none := by
  rw [Walk.isComplete_run_iff (start_sound hp)]
  show (∃ f ∈ [p.expr], f.Matches none bytes none) ↔ _
  simp only [List.mem_singleton, exists_eq_left]

/-- A walk is complete behind exactly the texts that the pattern matches by itself. -/
theorem isComplete_start_run_iff (h : Tree.read? text.toList = some t) (hp : ofText? text = some p)
    (he : t.expr? = some e) : (p.start.run bytes).isComplete = true ↔ e.Matches none bytes none := by
  obtain ⟨e', he', hexpr⟩ := exists_expr?_of_ofText? h hp
  obtain rfl : e' = e := Option.some.inj (he'.symm.trans he)
  rw [isComplete_run_start_iff hp, hexpr]
  exact matches_andThen_textEnd

end GuidedDecoding.Pattern
