import GuidedDecoding.Proofs.Pattern.Anchored

/-!
# What readers of patterns leave

A reader leaves a suffix of the text it is given (`Drops`), and all but those that only look ahead take a character
if there is one (`Takes`). A loop therefore needs no more turns than there are characters, and one for the end: with
more fuel than that it does the same (`keeps_classBody`, `keeps_branches`).

Where a reader looks at the text first and then decides, what it does then has a name of its own here.
-/

namespace GuidedDecoding.Pattern

open Unicode (isBlank)

section Suffix

variable {α β : Type} {s t : Cursor} {x y : Read α} {f : α → Read β}

def Drops (x : Read α) : Prop := ∀ s a t, StateT.run x s = some (a, t) → t.rest <:+ s.rest

/-- What is left is a suffix of the text without its first character. -/
def Takes (x : Read α) : Prop := ∀ s a t, StateT.run x s = some (a, t) → t.rest <:+ s.rest.tail

theorem Takes.drops (h : Takes x) : Drops x := fun s a t hrun => (h s a t hrun).trans (List.tail_suffix s.rest)

/-- Readers that drop do so one behind the other. -/
theorem Drops.bind (hx : Drops x) (hf : ∀ a, Drops (f a)) : Drops (x >>= f) := by
  intro s b u hrun
  obtain ⟨a, t, hxt, hft⟩ := run_bind_eq_some.mp hrun
  exact (hf a t b u hft).trans (hx s a t hxt)

/-- If the first one takes a character, both do. -/
theorem Takes.bind (hx : Takes x) (hf : ∀ a, Drops (f a)) : Takes (x >>= f) := by
  intro s b u hrun
  obtain ⟨a, t, hxt, hft⟩ := run_bind_eq_some.mp hrun
  exact (hf a t b u hft).trans (hx s a t hxt)

theorem suffix_tail {l m : List Char} (h : l <:+ m) : l.tail <:+ m.tail := by
  obtain ⟨front, rfl⟩ := h
  cases front with
  | nil => exact List.suffix_refl l.tail
  | cons c front => exact (List.tail_suffix l).trans (List.suffix_append front l)

theorem Drops.bind_takes (hx : Drops x) (hf : ∀ a, Takes (f a)) : Takes (x >>= f) := by
  intro s b u hrun
  obtain ⟨a, t, hxt, hft⟩ := run_bind_eq_some.mp hrun
  exact (hf a t b u hft).trans (suffix_tail (hx s a t hxt))

theorem drops_pure (a : α) : Drops (pure a) := by
  intro s b t hrun
  cases hrun
  exact List.suffix_refl s.rest

theorem takes_failure : Takes (failure : Read α) := by
  intro s a t hrun
  cases hrun

theorem drops_ite {p : Prop} [Decidable p] (hx : Drops x) (hy : Drops y) : Drops (if p then x else y) := by
  split
  · exact hx
  · exact hy

theorem takes_ite {p : Prop} [Decidable p] (hx : Takes x) (hy : Takes y) : Takes (if p then x else y) := by
  split
  · exact hx
  · exact hy

theorem drops_guard (p : Prop) [Decidable p] : Drops (guard p : Read Unit) := by
  unfold guard
  exact drops_ite (drops_pure ()) takes_failure.drops

theorem drops_ofOption (o : Option α) : Drops (Read.ofOption o) := by
  cases o with
  | none => exact takes_failure.drops
  | some a => exact drops_pure a

theorem drops_modify {g : Cursor → Cursor} (h : ∀ s, (g s).rest <:+ s.rest) : Drops (modify g) := by
  intro s a t hrun
  cases hrun
  exact h s

/-! ### Looking ahead and moving on -/

theorem drops_get : Drops (get : Read Cursor) := by
  intro s a t hrun
  cases hrun
  exact List.suffix_refl s.rest

theorem drops_rest : Drops Read.rest := drops_get.bind fun _ => drops_pure _

theorem drops_current : Drops Read.current := by
  refine drops_rest.bind fun l => ?_
  cases l with
  | nil => exact takes_failure.drops
  | cons c l => exact drops_pure c

theorem drops_isNext (text : String) : Drops (Read.isNext text) := drops_rest.bind fun _ => drops_pure _

theorem takes_skip (count : Nat) : Takes (Read.skip (count + 1)) := by
  intro s a t hrun
  cases hrun
  show s.rest.drop (count + 1) <:+ s.rest.tail
  rw [← List.drop_one, Nat.add_comm, ← List.drop_drop]
  exact List.drop_suffix count _

theorem drops_skip (count : Nat) : Drops (Read.skip count) := drops_modify fun s => List.drop_suffix count s.rest

/-- Blanks and comments are left out at the front. -/
theorem afterBlanks_suffix (inComment : Bool) (l : List Char) : afterBlanks inComment l <:+ l := by
  induction l generalizing inComment with
  | nil => exact List.suffix_refl []
  | cons c l ih =>
    rw [afterBlanks]
    split
    · exact (ih _).trans (List.suffix_cons c l)
    · split
      · exact (ih _).trans (List.suffix_cons c l)
      · split
        · exact (ih _).trans (List.suffix_cons c l)
        · exact List.suffix_refl _

theorem drops_blanks : Drops Read.blanks := by
  apply drops_modify
  intro s
  split
  · exact afterBlanks_suffix false s.rest
  · exact List.suffix_refl s.rest

theorem takes_advance : Takes Read.advance := (takes_skip 0).bind fun _ => drops_blanks

theorem takes_expect (c : Char) : Takes (Read.expect c) :=
  drops_current.bind_takes fun d => (drops_guard (d = c)).bind_takes fun _ => takes_skip 0

theorem drops_takeWhile (p : Char → Bool) (n : Nat) : Drops (Read.takeWhile p n) := by
  induction n with
  | zero => exact drops_pure []
  | succ n ih =>
    refine drops_rest.bind fun l => ?_
    cases l with
    | nil => exact drops_pure []
    | cons c l =>
      exact drops_ite (takes_advance.drops.bind fun _ => ih.bind fun _ => drops_pure _) (drops_pure [])

theorem drops_run (p : Char → Bool) : Drops (Read.run p) := drops_rest.bind fun l => drops_takeWhile p l.length

/-! ### Numbers and escapes -/

theorem drops_decimal : Drops decimal := by
  have htrim : Drops (modify fun s : Cursor => { s with rest := s.rest.dropWhile isBlank } : Read Unit) :=
    drops_modify fun s => List.dropWhile_suffix isBlank
  refine htrim.bind fun _ => (drops_run _).bind fun digits => htrim.bind fun _ => ?_
  exact (drops_guard _).bind fun _ => (drops_guard _).bind fun _ => drops_pure _

theorem drops_hexDigits (count : Nat) : Drops (hexDigits count) := by
  induction count with
  | zero => exact drops_pure []
  | succ count ih =>
    refine drops_current.bind fun c => (drops_guard _).bind fun _ => takes_advance.drops.bind fun _ => ?_
    exact ih.bind fun _ => drops_pure _

theorem takes_hexDigits (count : Nat) : Takes (hexDigits (count + 1)) := by
  refine drops_current.bind_takes fun c => (drops_guard _).bind_takes fun _ => takes_advance.bind fun _ => ?_
  exact (drops_hexDigits count).bind fun _ => drops_pure _

theorem takes_codePoint (count : Nat) : Takes (codePoint count) := by
  refine takes_advance.bind fun _ => drops_current.bind fun c => drops_ite ?_ ?_
  · refine takes_advance.drops.bind fun _ => (drops_run _).bind fun digits => drops_current.bind fun d => ?_
    refine (drops_guard _).bind fun _ => takes_advance.drops.bind fun _ => ?_
    exact (drops_ofOption _).bind fun _ => drops_pure _
  · exact (drops_hexDigits count).bind fun digits => (drops_ofOption _).bind fun _ => drops_pure _

theorem takes_property (negated : Bool) : Takes (property negated) := by
  refine takes_advance.bind fun _ => drops_current.bind fun c => drops_ite ?_ ?_
  · refine takes_advance.drops.bind fun _ => (drops_run _).bind fun text => ?_
    exact (takes_expect _).drops.bind fun _ => drops_pure _
  · exact (drops_guard _).bind fun _ => takes_advance.drops.bind fun _ => drops_pure _

def isEdgeLetter (c : Char) : Bool := c.isAlpha || c == '-'

def edgeName : Read WordEdge := do
  let name ← Read.run isEdgeLetter
  Read.expect '\x7d'
  match String.ofList name with
  | "start" => return .start
  | "end" => return .finish
  | "start-half" => return .startHalf
  | "end-half" => return .finishHalf
  | _ => failure

theorem wordEdge_eq :
    wordEdge = (do
      let start ← get
      if ← Read.isNext "\x7b" then
        Read.advance
        if isEdgeLetter (← Read.current) then edgeName
        else
          set start
          return .boundary
      else return .boundary) := rfl

/-- Where no name follows the brace, the reader goes back to it. -/
theorem run_wordEdge (s : Cursor) :
    StateT.run wordEdge s =
      if "\x7b".toList.isPrefixOf s.rest then
        (StateT.run (Read.advance >>= fun _ => Read.current) s).bind fun (c, t) =>
          if isEdgeLetter c then StateT.run edgeName t else some (.boundary, s)
      else some (.boundary, s) := by
  rw [wordEdge_eq]
  show StateT.run
    (if "\x7b".toList.isPrefixOf s.rest then do
      Read.advance
      if isEdgeLetter (← Read.current) then edgeName
      else
        set s
        return .boundary
    else return .boundary) s = _
  split
  · rw [StateT.run_bind, StateT.run_bind]
    show Option.bind _ _ = Option.bind (Option.bind _ _) _
    rw [Option.bind_assoc]
    refine congrArg _ (funext fun r => ?_)
    rw [StateT.run_bind]
    refine congrArg _ (funext fun (c, t) => ?_)
    dsimp only
    split <;> rfl
  · rfl

theorem drops_edgeName : Drops edgeName := by
  refine (drops_run _).bind fun name => (takes_expect _).drops.bind fun _ => ?_
  split
  all_goals first | exact drops_pure _ | exact takes_failure.drops

theorem drops_wordEdge : Drops wordEdge := by
  intro s a t h
  rw [run_wordEdge] at h
  split at h
  · obtain ⟨⟨c, u⟩, hcurrent, h⟩ := Option.bind_eq_some_iff.mp h
    have hu : u.rest <:+ s.rest := takes_advance.drops.bind (fun _ => drops_current) s c u hcurrent
    dsimp only at h
    split at h
    · exact (drops_edgeName u a t h).trans hu
    · cases h
      exact List.suffix_refl s.rest
  · cases h
    exact List.suffix_refl s.rest

theorem takes_escape : Takes escape := by
  refine (takes_skip 0).bind fun _ => drops_current.bind fun c => ?_
  split
  · exact (takes_codePoint 2).drops.bind fun _ => drops_pure _
  · exact (takes_codePoint 4).drops.bind fun _ => drops_pure _
  · exact (takes_codePoint 8).drops.bind fun _ => drops_pure _
  · exact (takes_property false).drops.bind fun _ => drops_pure _
  · exact (takes_property true).drops.bind fun _ => drops_pure _
  all_goals refine (drops_skip 1).bind fun _ => ?_
  any_goals exact drops_pure _
  · exact drops_wordEdge.bind fun _ => drops_pure _
  · exact drops_ite (drops_pure _) ((drops_ofOption _).bind fun _ => drops_pure _)

/-! ### Classes in brackets -/

/-- What stands behind a separator is a suffix. -/
theorem splitAt?_suffix {separator l before after : List Char} (h : splitAt? separator l = some (before, after)) :
    after <:+ l := by
  induction l generalizing before after with
  | nil => cases h
  | cons c l ih =>
    rw [splitAt?] at h
    split at h
    · cases h
      exact List.drop_suffix _ _
    · obtain ⟨⟨before', after'⟩, hsplit, hmap⟩ := Option.map_eq_some_iff.mp h
      cases hmap
      exact (ih hsplit).trans (List.suffix_cons c l)

/-- A named class is taken with its bracket. -/
theorem suffix_of_asciiBody {negated : Bool} {body : List Char} {class? : Option ClassTree}
    (hbody : body <:+ s.rest.tail) (h : StateT.run (asciiBody negated body) s = some (class?, t)) :
    class? = none ∧ t = s ∨ t.rest <:+ s.rest.tail := by
  unfold asciiBody at h
  split at h
  · next name after hsplit =>
    split at h
    · cases h
      exact Or.inr ((List.suffix_cons ']' after).trans ((splitAt?_suffix hsplit).trans hbody))
    · cases h
      exact Or.inl ⟨rfl, rfl⟩
  · cases h
    exact Or.inl ⟨rfl, rfl⟩

/-- Where there is no named class nothing is read. -/
theorem suffix_of_asciiClass? {class? : Option ClassTree} (h : StateT.run asciiClass? s = some (class?, t)) :
    class? = none ∧ t = s ∨ t.rest <:+ s.rest.tail := by
  rw [asciiClass?_eq] at h
  obtain ⟨l, u, hrest, h⟩ := run_bind_eq_some.mp h
  cases hrest
  split at h
  · next body hbody =>
    have hsuffix : body <:+ s.rest.tail := by
      rw [hbody]
      exact List.suffix_cons ':' body
    split at h
    · exact suffix_of_asciiBody ((List.tail_suffix body).trans hsuffix) h
    · exact suffix_of_asciiBody hsuffix h
  · cases h
    exact Or.inl ⟨rfl, rfl⟩

theorem drops_asciiClass? : Drops asciiClass? := by
  intro s a t h
  rcases suffix_of_asciiClass? h with ⟨-, rfl⟩ | hsuffix
  · exact List.suffix_refl _
  · exact hsuffix.trans (List.tail_suffix _)

theorem takes_classItem : Takes classItem :=
  drops_current.bind_takes fun _ => takes_ite takes_escape ((takes_skip 0).bind fun _ => drops_pure _)

/-- What is read of a range behind its first item, where these two characters decide whether it is one. -/
def classRangeEnd (first : Escape) (c : Char) (next : Option Char) : Read ClassTree :=
  if c ≠ '-' ∨ next = some ']' ∨ next = some '-' then
    match first with
    | .literal l => return .char l
    | .named n => return .named n
    | .assertion _ => failure
  else do
    Read.advance
    match first, ← classItem with
    | .literal a, .literal b =>
      guard (a.char ≤ b.char)
      return .range a b
    | _, _ => failure

theorem classRange_eq :
    classRange = (do
      let first ← classItem
      Read.blanks
      let c ← Read.current
      let s ← get
      classRangeEnd first c (afterHyphen? s.verbose (s.rest.drop 1))) := rfl

theorem drops_classRangeEnd (first : Escape) (c : Char) (next : Option Char) :
    Drops (classRangeEnd first c next) := by
  refine drops_ite ?_ ?_
  · split
    · exact drops_pure _
    · exact drops_pure _
    · exact takes_failure.drops
  · refine takes_advance.drops.bind fun _ => takes_classItem.drops.bind fun second => ?_
    split
    · exact (drops_guard _).bind fun _ => drops_pure _
    · exact takes_failure.drops

theorem takes_classRange : Takes classRange := by
  rw [classRange_eq]
  refine takes_classItem.bind fun first => drops_blanks.bind fun _ => drops_current.bind fun c => ?_
  exact drops_get.bind fun s => drops_classRangeEnd first c _

theorem drops_classHyphens (negated : Bool) : Drops (classHyphens negated) := by
  refine (drops_run _).bind fun hyphens => (drops_isNext _).bind fun _ => drops_ite ?_ (drops_pure _)
  exact takes_advance.drops.bind fun _ => drops_pure _

theorem takes_classOpening : Takes classOpening := by
  refine takes_advance.bind fun _ => (drops_isNext _).bind fun negated => drops_ite ?_ (drops_classHyphens negated)
  exact takes_advance.drops.bind fun _ => drops_classHyphens negated

theorem drops_operation? : Drops operation? := by
  refine (drops_isNext _).bind fun _ => drops_ite (drops_pure _) ?_
  refine (drops_isNext _).bind fun _ => drops_ite (drops_pure _) ?_
  exact (drops_isNext _).bind fun _ => drops_ite (drops_pure _) (drops_pure _)

/-- What is read of the body of a class from a character that is no blank. -/
def classTurn (fuel : Nat) (pending : Option (SetOperation × ClassTree)) (items : List ClassTree) (c : Char) :
    Read ClassTree := do
  if c = '[' then
    match ← asciiClass? with
    | some ascii => classBody fuel pending (items ++ [ascii])
    | none =>
      let (negated, opening) ← classOpening
      let body ← classBody fuel none opening
      classBody fuel pending (items ++ [.bracketed negated body])
  else if c = ']' then
    Read.skip 1
    return closed pending items
  else
    match ← operation? with
    | some op =>
      Read.skip 2
      classBody fuel (some (op, closed pending items)) []
    | none =>
      let item ← classRange
      classBody fuel pending (items ++ [item])

theorem classBody_succ (n : Nat) (pending : Option (SetOperation × ClassTree)) (items : List ClassTree) :
    classBody (n + 1) pending items = (do
      Read.blanks
      classTurn n pending items (← Read.current)) := rfl

theorem takes_classTurn {n : Nat} (hbody : ∀ pending items, Takes (classBody n pending items))
    (pending : Option (SetOperation × ClassTree)) (items : List ClassTree) (c : Char) :
    Takes (classTurn n pending items c) := by
  refine takes_ite ?_ (takes_ite ?_ ?_)
  · refine drops_asciiClass?.bind_takes fun ascii => ?_
    cases ascii with
    | some ascii => exact hbody pending _
    | none =>
      refine takes_classOpening.bind fun opening => ?_
      exact (hbody none opening.2).drops.bind fun body => (hbody pending _).drops
  · exact (takes_skip 0).bind fun _ => drops_pure _
  · refine drops_operation?.bind_takes fun op => ?_
    cases op with
    | some op => exact (takes_skip 1).bind fun _ => (hbody _ []).drops
    | none => exact takes_classRange.bind fun item => (hbody pending _).drops

/-- A class in brackets takes a character with each of its items. -/
theorem takes_classBody (n : Nat) (pending : Option (SetOperation × ClassTree)) (items : List ClassTree) :
    Takes (classBody n pending items) := by
  induction n generalizing pending items with
  | zero => exact takes_failure
  | succ n ih =>
    rw [classBody_succ]
    exact drops_blanks.bind_takes fun _ => drops_current.bind_takes fun c => takes_classTurn ih pending items c

theorem takes_bracketed : Takes bracketed := by
  refine takes_classOpening.bind fun opening => drops_rest.bind fun l => ?_
  exact (takes_classBody _ none opening.2).drops.bind fun _ => drops_pure _

/-! ### Groups and repetitions -/

def groupNamed (name : List Char) : Read Unit := do
  Read.skip name.length
  Read.expect '>'
  modify fun s => { s with names := name :: s.names }

theorem drops_groupNamed (name : List Char) : Drops (groupNamed name) := by
  refine (drops_skip _).bind fun _ => (takes_expect _).drops.bind fun _ => ?_
  exact drops_modify fun s => List.suffix_refl s.rest

theorem drops_groupName : Drops groupName :=
  drops_get.bind fun s => (drops_guard _).bind fun _ => drops_groupNamed (s.rest.takeWhile (· != '>'))

theorem settings_suffix {on : Bool} {before read : Settings} {l after : List Char}
    (h : settings on before l = some (read, after)) : after <:+ l := by
  fun_induction settings on before l with
  | case1 => cases h
  | case2 on before c rest =>
    cases h
    exact List.suffix_refl _
  | case3 on before d rest _ _ ih => exact (ih h).trans (List.suffix_cons _ _)
  | case4 => cases h
  | case5 => cases h
  | case6 => cases h
  | case7 on before c rest _ _ _ _ _ ih => exact (ih h).trans (List.suffix_cons _ _)
  | case8 => cases h

theorem drops_switchesKind (read : Settings) (next : Option Char) : Drops (switchesKind read next) :=
  drops_ite (drops_pure _) ((drops_guard _).bind fun _ => drops_pure _)

theorem drops_switches : Drops switches := by
  intro s op t h
  rw [run_switches] at h
  obtain ⟨⟨read, after⟩, hsettings, hkind⟩ := Option.bind_eq_some_iff.mp h
  have hafter := drops_switchesKind read after.head? _ _ _ hkind
  exact hafter.trans ((List.drop_suffix 1 after).trans (settings_suffix hsettings))

theorem takes_opening : Takes opening := by
  refine takes_advance.bind fun _ => ?_
  iterate 4 refine (drops_isNext _).bind fun _ => ?_
  refine drops_ite takes_failure.drops ((drops_isNext _).bind fun _ => drops_ite ?_ ?_)
  · exact (drops_skip 3).bind fun _ => drops_groupName.bind fun _ => drops_pure _
  refine (drops_isNext _).bind fun _ => drops_ite ?_ ?_
  · exact (drops_skip 2).bind fun _ => drops_groupName.bind fun _ => drops_pure _
  refine (drops_isNext _).bind fun _ => drops_ite ?_ (drops_pure _)
  exact (drops_skip 1).bind fun _ => drops_switches

theorem drops_preference : Drops preference :=
  (drops_isNext _).bind fun _ => drops_ite (drops_skip 1) (drops_pure _)

def boundsInner : Read (Nat × Option Nat) := do
  let min ← decimal
  if (← Read.current) = ',' then
    Read.advance
    if (← Read.current) = '\x7d' then boundsEnd min none
    else boundsEnd min (some (← decimal))
  else boundsEnd min (some min)

theorem bounds_eq : bounds = Read.advance >>= fun _ => boundsInner := rfl

theorem takes_boundsEnd (min : Nat) (max : Option Nat) : Takes (boundsEnd min max) := by
  refine drops_current.bind_takes fun c => (drops_guard _).bind_takes fun _ => takes_advance.bind fun _ => ?_
  exact drops_preference.bind fun _ => drops_pure _

theorem drops_boundsInner : Drops boundsInner := by
  refine drops_decimal.bind fun min => drops_current.bind fun c => drops_ite ?_ ?_
  · refine takes_advance.drops.bind fun _ => drops_current.bind fun d => drops_ite ?_ ?_
    · exact (takes_boundsEnd min none).drops
    · exact drops_decimal.bind fun max => (takes_boundsEnd min (some max)).drops
  · exact (takes_boundsEnd min (some min)).drops

theorem takes_bounds : Takes bounds := by
  rw [bounds_eq]
  exact takes_advance.bind fun _ => drops_boundsInner

theorem suffix_of_repetition? {times : Option (Nat × Option Nat)}
    (h : StateT.run repetition? s = some (times, t)) : times = none ∧ t = s ∨ t.rest <:+ s.rest.tail := by
  have hsign {min : Nat} {max : Option Nat} :
      Takes (do Read.skip 1; preference; return some (min, max)) :=
    (takes_skip 0).bind fun _ => drops_preference.bind fun _ => drops_pure _
  obtain ⟨l, u, hrest, h⟩ := run_bind_eq_some.mp h
  cases hrest
  split at h
  · exact Or.inr (hsign _ _ _ h)
  · exact Or.inr (hsign _ _ _ h)
  · exact Or.inr (hsign _ _ _ h)
  · exact Or.inr (takes_bounds.bind (fun _ => drops_pure _) _ _ _ h)
  · cases h
    exact Or.inl ⟨rfl, rfl⟩

theorem drops_repetition? : Drops repetition? := by
  intro s a t h
  rcases suffix_of_repetition? h with ⟨-, rfl⟩ | hsuffix
  · exact List.suffix_refl _
  · exact hsuffix.trans (List.tail_suffix _)

theorem takes_leaf : Takes leaf := by
  refine drops_current.bind_takes fun c => ?_
  split
  · refine takes_escape.bind fun e => ?_
    cases e <;> exact drops_pure _
  all_goals exact (takes_skip 0).bind fun _ => drops_pure _

/-! ### Patterns -/

/-- What is read of a group behind its opening, and behind the group, where blanks are skipped outside or not. -/
def branchesGroup (fuel : Nat) (done items : List Tree) (w : Settings) (outer : Bool) : Read Tree := do
  modify fun c => { c with verbose := verboseAfter w outer }
  let body ← branches fuel [] []
  modify fun c => { c with verbose := outer }
  Read.expect ')'
  branches fuel done (items ++ [.group w body])

/-- What is read of branches behind the bounds of a repetition, or where there are none. -/
def branchesRepeat (fuel : Nat) (done items : List Tree) (times : Option (Nat × Option Nat)) : Read Tree := do
  match times with
  | some (min, max) =>
    let body ← Read.ofOption items.getLast?
    guard body.isRepeatable
    branches fuel done (items.dropLast ++ [.repetition body min max])
  | none => branches fuel done (items ++ [← leaf])

def branchesTurn (fuel : Nat) (done items : List Tree) (c? : Option Char) : Read Tree := do
  match c? with
  | none | some ')' => return .ofBranches (done ++ [.ofItems items])
  | some '|' =>
    Read.skip 1
    branches fuel (done ++ [.ofItems items]) []
  | some '[' => branches fuel done (items ++ [← bracketed])
  | some '(' =>
    match ← opening with
    | .settings w =>
      modify fun c => { c with verbose := verboseAfter w c.verbose }
      branches fuel done (items ++ [.settings w])
    | .group w => branchesGroup fuel done items w (← get).verbose
  | _ => branchesRepeat fuel done items (← repetition?)

theorem branches_succ (n : Nat) (done items : List Tree) :
    branches (n + 1) done items = (do
      Read.blanks
      branchesTurn n done items (← Read.rest).head?) := rfl

theorem drops_setVerbose (v : Bool → Bool) :
    Drops (modify fun c => { c with verbose := v c.verbose } : Read Unit) :=
  drops_modify fun s => List.suffix_refl s.rest

section

variable {n : Nat} (hbranches : ∀ done items, Drops (branches n done items)) (done items : List Tree)
include hbranches

theorem drops_branchesGroup (w : Settings) (outer : Bool) : Drops (branchesGroup n done items w outer) := by
  refine (drops_setVerbose fun _ => verboseAfter w outer).bind fun _ => (hbranches [] []).bind fun body => ?_
  refine (drops_setVerbose fun _ => outer).bind fun _ => (takes_expect _).drops.bind fun _ => ?_
  exact hbranches done _

theorem drops_branchesRepeat (times : Option (Nat × Option Nat)) : Drops (branchesRepeat n done items times) := by
  cases times with
  | some times => exact (drops_ofOption _).bind fun body => (drops_guard _).bind fun _ => hbranches done _
  | none => exact takes_leaf.drops.bind fun tree => hbranches done _

theorem drops_branchesTurn (c? : Option Char) : Drops (branchesTurn n done items c?) := by
  unfold branchesTurn
  split
  · exact drops_pure _
  · exact drops_pure _
  · exact (drops_skip 1).bind fun _ => hbranches _ []
  · exact takes_bracketed.drops.bind fun tree => hbranches done _
  · refine takes_opening.drops.bind fun op => ?_
    cases op with
    | settings w => exact (drops_setVerbose (verboseAfter w)).bind fun _ => hbranches done _
    | group w => exact drops_get.bind fun outer => drops_branchesGroup hbranches done items w _
  · exact drops_repetition?.bind fun times => drops_branchesRepeat hbranches done items times

end

/-- No branches put a character back. -/
theorem drops_branches (n : Nat) (done items : List Tree) : Drops (branches n done items) := by
  induction n generalizing done items with
  | zero => exact takes_failure.drops
  | succ n ih =>
    rw [branches_succ]
    exact drops_blanks.bind fun _ => drops_rest.bind fun l => drops_branchesTurn ih done items l.head?

/-! ### Fuel -/

/-- What is left is no longer. -/
theorem Drops.length_le (hx : Drops x) {a : α} (h : StateT.run x s = some (a, t)) :
    t.rest.length ≤ s.rest.length :=
  (hx s a t h).length_le

theorem length_lt_of_suffix_tail {l m : List Char} {k : Nat} (hm : m ≠ []) (hk : m.length ≤ k) (h : l <:+ m.tail) :
    l.length < k := by
  have hle := h.length_le
  have hpos := List.length_pos_iff.mpr hm
  rw [List.length_tail] at hle
  omega

theorem exists_of_run_current {c : Char} (h : StateT.run Read.current s = some (c, t)) :
    t = s ∧ ∃ l, s.rest = c :: l := by
  rw [run_current] at h
  cases hrest : s.rest with
  | nil =>
    rw [hrest] at h
    cases h
  | cons d l =>
    rw [hrest] at h
    cases h
    exact ⟨rfl, l, rfl⟩

/-- Where the body of a class is read at all, a turn for every character and one more are enough. -/
theorem keeps_classBody {n k : Nat} (hk : s.rest.length < k) (pending : Option (SetOperation × ClassTree))
    (items : List ClassTree) : Keeps s (classBody n pending items) (classBody k pending items) := by
  induction n generalizing s k pending items with
  | zero => exact fun r h => nomatch h
  | succ n ih =>
    obtain ⟨k, rfl⟩ : ∃ j, k = j + 1 := ⟨k - 1, by omega⟩
    rw [classBody_succ, classBody_succ]
    refine (Keeps.refl s _).bind fun _ t hblanks => (Keeps.refl t _).bind fun c u hc => ?_
    obtain ⟨rfl, l, hrest⟩ := exists_of_run_current hc
    have hle := drops_blanks.length_le hblanks
    have hne : u.rest ≠ [] := by rw [hrest]; exact List.cons_ne_nil c l
    -- A turn takes a character, so that there is one turn less for what it leaves.
    have htakes {v w : Cursor} (hw : w.rest <:+ v.rest) (hv : v.rest <:+ u.rest.tail) : w.rest.length < k :=
      length_lt_of_suffix_tail hne (by omega) (hw.trans hv)
    unfold classTurn
    split
    · refine (Keeps.refl u _).bind fun ascii v hascii => ?_
      have hsuffix := suffix_of_asciiClass? hascii
      cases ascii with
      | some ascii => exact ih (htakes (List.suffix_refl _) (hsuffix.resolve_left fun h => nomatch h.1)) _ _
      | none =>
        obtain rfl : v = u := eq_of_asciiClass? hascii
        refine (Keeps.refl v _).bind fun opening w hopening => ?_
        have hw := takes_classOpening _ _ _ hopening
        refine (ih (htakes (List.suffix_refl _) hw) none opening.2).bind fun body x hbody => ?_
        exact ih (htakes ((takes_classBody _ _ _).drops _ _ _ hbody) hw) _ _
    · split
      · exact Keeps.refl u _
      · refine (Keeps.refl u _).bind fun op v hop => ?_
        have hv := drops_operation? _ _ _ hop
        cases op with
        | some op =>
          refine (Keeps.refl v _).bind fun _ w hskip => ?_
          exact ih (htakes (List.suffix_refl _) ((takes_skip 1 _ _ _ hskip).trans (suffix_tail hv))) _ _
        | none =>
          refine (Keeps.refl v _).bind fun item w hitem => ?_
          exact ih (htakes (List.suffix_refl _) ((takes_classRange _ _ _ hitem).trans (suffix_tail hv))) _ _

/-- Where branches are read at all, a turn for every character and one more are enough. -/
theorem keeps_branches {n k : Nat} (hk : s.rest.length < k) (done items : List Tree) :
    Keeps s (branches n done items) (branches k done items) := by
  -- on the first fuel; the second one exceeds what is left, which each turn lessens
  induction n generalizing s k done items with
  | zero => exact fun r h => nomatch h
  | succ n ih =>
    obtain ⟨k, rfl⟩ : ∃ j, k = j + 1 := ⟨k - 1, by omega⟩
    rw [branches_succ, branches_succ]
    refine (Keeps.refl s _).bind fun _ t hblanks => (Keeps.refl t _).bind fun l u hl => ?_
    obtain ⟨rfl, rfl⟩ : l = t.rest ∧ u = t := by
      cases hl
      exact ⟨rfl, rfl⟩
    have hle := drops_blanks.length_le hblanks
    cases hrest : u.rest with
    | nil => exact Keeps.refl u _
    | cons c l =>
    have hne : u.rest ≠ [] := by rw [hrest]; exact List.cons_ne_nil c l
    -- A turn takes a character, so that there is one turn less for what it leaves.
    have htakes {v w : Cursor} (hw : w.rest <:+ v.rest) (hv : v.rest <:+ u.rest.tail) : w.rest.length < k :=
      length_lt_of_suffix_tail hne (by omega) (hw.trans hv)
    unfold branchesTurn
    rw [List.head?_cons]
    split
    · exact Keeps.refl u _
    · exact Keeps.refl u _
    · refine (Keeps.refl u _).bind fun _ v hskip => ?_
      exact ih (htakes (List.suffix_refl _) (takes_skip 0 _ _ _ hskip)) _ _
    · refine (Keeps.refl u _).bind fun tree v htree => ?_
      exact ih (htakes (List.suffix_refl _) (takes_bracketed _ _ _ htree)) _ _
    · refine (Keeps.refl u _).bind fun op v hop => ?_
      have hv := takes_opening _ _ _ hop
      cases op with
      | settings w =>
        refine (Keeps.refl v _).bind fun _ x hset => ?_
        exact ih (htakes (drops_setVerbose (verboseAfter w) _ _ _ hset) hv) _ _
      | group w =>
        refine (Keeps.refl v _).bind fun outer x hget => (Keeps.refl x _).bind fun _ y hset => ?_
        cases hget
        have hy := drops_setVerbose (fun _ => verboseAfter w v.verbose) _ _ _ hset
        refine (ih (htakes hy hv) [] []).bind fun body z hbody => (Keeps.refl z _).bind fun _ z' hset' => ?_
        have hz := drops_setVerbose (fun _ => v.verbose) _ _ _ hset'
        refine (Keeps.refl z' _).bind fun _ v' hexpect => ?_
        have hv' := (takes_expect _).drops _ _ _ hexpect
        exact ih (htakes (hv'.trans (hz.trans ((drops_branches _ _ _ _ _ _ hbody).trans hy))) hv) _ _
    · refine (Keeps.refl u _).bind fun times v htimes => ?_
      have hsuffix := suffix_of_repetition? htimes
      cases times with
      | some times =>
        have hv := hsuffix.resolve_left fun h => nomatch h.1
        refine (Keeps.refl v _).bind fun body w hbody => (Keeps.refl w _).bind fun _ x hguard => ?_
        have hx := ((drops_guard _) _ _ _ hguard).trans (drops_ofOption _ _ _ _ hbody)
        exact ih (htakes hx hv) _ _
      | none =>
        have hv := drops_repetition? _ _ _ htimes
        refine (Keeps.refl v _).bind fun tree w htree => ?_
        exact ih (htakes (List.suffix_refl _) ((takes_leaf _ _ _ htree).trans (suffix_tail hv))) _ _

end Suffix

end GuidedDecoding.Pattern
