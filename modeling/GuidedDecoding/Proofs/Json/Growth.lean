import GuidedDecoding.Proofs.Json.Partial

/-!
# Texts that go on

The scanner of unfinished documents takes nothing back. Whatever the text is, and however it goes on, what was
kept of it is kept (`repair_append`), and behind the end of the outermost value nothing changes any more. So of a
complete document exactly the blanks behind it are dropped, and all that is behind them (`repair_of_complete`).

`Repair.Feeds` lists what one character can do to the scanner, and `Repair.Grows` says what the scanners before and
behind some characters have in common.
-/

namespace GuidedDecoding.Json

open Progress
open Repair (Checkpoint Stance endsLiteral)
open Scan (Finds InLiteral)

namespace Repair

variable {r r' r'' : Repair} {m : Checkpoint} {c : Char} {cs : List Char} {d d' : Repaired} {stance : Stance}

/-! ### What one character does -/

def Stance.inText : Stance → Bool
  | .valueText .. => true
  | _ => false

inductive Feeds : Repair → Char → Repair → Prop
  /-- The text cannot be closed behind the character, nor is that in a string that is a value. -/
  | pass {r : Repair} {c : Char} {stance : Stance} : r.stance.inText = false → stance.inText = false →
      (r.stance = .halted → stance = .halted) → Feeds r c { r with seen := c :: r.seen, stance := stance }
  /-- A string that is a value begins. -/
  | quote {r : Repair} {c : Char} : r.stance = .value →
      Feeds r c { r with seen := c :: r.seen, stance := .valueText false .whole (c :: r.seen) }
  /-- The string goes on. -/
  | text {r : Repair} {c : Char} {escaped escaped' : Bool} {phase phase' : BodyPhase} {kept kept' : List Char} :
      r.stance = .valueText escaped phase kept → phase' = .whole ∧ kept' = c :: r.seen ∨ kept' = kept →
      Feeds r c { r with seen := c :: r.seen, stance := .valueText escaped' phase' kept' }
  /-- The text can be closed behind the character. -/
  | mark {r r' : Repair} {c : Char} : r.stance ≠ .halted → isBlank c = false → r'.seen = c :: r.seen →
      r'.stance.inText = false → (r.started = true ∨ r.stance.inText = true → r'.started = true) →
      (r'.closers = [] → r'.started = true ∧ r'.stance = .halted) → Feeds r c r'.mark
  /-- The character ends a word or numeral, and does what it would do behind any other value. -/
  | literal {r r' : Repair} {c : Char} {chars : List Char} : r.stance = .literal chars → endsLiteral c = true →
      isLiteral chars.reverse = true → Feeds r.complete c r' → Feeds r c r'

theorem stance_complete (r : Repair) : r.complete.stance = if r.closers.isEmpty then .halted else .commaOrClose := rfl

/-- A completed value leaves no string open. -/
theorem inText_complete (r : Repair) : r.complete.stance.inText = false := by
  rw [stance_complete]
  split <;> rfl

theorem closed_complete (h : r.complete.closers = []) : r.complete.stance = .halted := by
  rw [stance_complete, show r.closers = [] from h]
  rfl

theorem checkpoint_leave (r : Repair) :
    r.leave.checkpoint = some ⟨r.leave.seen, r.leave.closers, r.leave.started⟩ := by
  unfold leave
  split <;> rfl

theorem feeds_leave (hstance : r.stance ≠ .halted) (htext : r.stance.inText = false) (hblank : isBlank c = false) :
    Feeds r c (leave { r with seen := c :: r.seen }) := by
  unfold leave
  split
  · exact .mark hstance hblank rfl rfl (fun _ => rfl) fun _ => ⟨rfl, rfl⟩
  · exact .mark hstance hblank rfl rfl (fun _ => rfl) fun _ => ⟨rfl, rfl⟩
  · next hnone _ =>
    refine .mark hstance hblank rfl rfl ?_ fun hnil => (hnone hnil).elim
    rintro (hstarted | htext')
    · exact hstarted
    · rw [htext] at htext'
      cases htext'

theorem feeds_enter (hstance : r.stance = .value) (hblank : isBlank c = false) (closer : Char)
    (hnext : stance.inText = false) : Feeds r c (enter { r with seen := c :: r.seen } closer stance) := by
  refine .mark (by simp [hstance]) hblank rfl hnext ?_ nofun
  rintro (hstarted | htext)
  · show (r.started || _) = true
    rw [hstarted]
    rfl
  · rw [hstance] at htext
    cases htext

theorem feeds_value (hstance : r.stance = .value) (c : Char) : Feeds r c (r.feed c) := by
  have htext : r.stance.inText = false := by rw [hstance]; rfl
  have hne : r.stance ≠ .halted := by simp [hstance]
  rw [feed_value hstance, begin]
  -- the branches are those of `begin`, in their order
  split
  · exact .pass htext htext id
  · next hblank =>
    have hblank : isBlank c = false := Bool.not_eq_true _ ▸ hblank
    split
    · exact feeds_enter hstance hblank _ rfl
    · split
      · exact feeds_enter hstance hblank _ rfl
      · split
        · exact feeds_leave hne htext hblank
        · split
          · exact .quote hstance
          · split
            · exact .pass htext rfl fun _ => rfl
            · exact .pass htext rfl fun h => absurd h hne

theorem feeds_key (hstance : r.stance = .key) (c : Char) : Feeds r c (r.feed c) := by
  have htext : r.stance.inText = false := by rw [hstance]; rfl
  have hne : r.stance ≠ .halted := by simp [hstance]
  simp only [feed, hstance]
  split
  · exact .pass htext rfl fun h => absurd h hne
  · next hblank =>
    split
    · exact .pass htext rfl fun h => absurd h hne
    · split
      · have hleave := feeds_leave hne htext (Bool.not_eq_true _ ▸ hblank)
        rwa [hstance] at hleave
      · exact .pass htext rfl fun _ => rfl

theorem feeds_commaOrClose (hstance : r.stance = .commaOrClose) (c : Char) : Feeds r c (r.feed c) := by
  have htext : r.stance.inText = false := by rw [hstance]; rfl
  have hne : r.stance ≠ .halted := by simp [hstance]
  rw [feed_commaOrClose hstance, separate]
  split
  · exact .pass htext htext id
  · next hblank =>
    split
    · refine .pass htext ?_ fun h => absurd h hne
      split <;> rfl
    · split
      · exact feeds_leave hne htext (Bool.not_eq_true _ ▸ hblank)
      · exact .pass htext rfl fun _ => rfl

theorem feeds_halted (hstance : r.stance = .halted) (c : Char) : Feeds r c (r.feed c) := by
  rw [feed_halted hstance]
  exact .pass (by rw [hstance]; rfl) (by rw [hstance]; rfl) id

/-- The end of something that is neither a word nor a numeral. -/
theorem feed_not_literal {chars : List Char} (hstance : r.stance = .literal chars) (hc : endsLiteral c = true)
    (hliteral : isLiteral chars.reverse = false) :
    r.feed c = { r with seen := c :: r.seen, stance := .halted } := by
  simp only [feed, hstance, hc, hliteral, Bool.not_true, Bool.not_false, Bool.false_eq_true, if_true, if_false]

/-- A character of a word or numeral, or behind it. -/
theorem feeds_literal {chars : List Char} (hstance : r.stance = .literal chars) (c : Char) :
    Feeds r c (r.feed c) := by
  have htext : r.stance.inText = false := by rw [hstance]; rfl
  have hne : r.stance ≠ .halted := by simp [hstance]
  cases hc : endsLiteral c with
  | false =>
    rw [feed_literal_more hstance hc]
    exact .pass htext rfl fun h => absurd h hne
  | true =>
    cases hliteral : isLiteral chars.reverse with
    | false =>
      rw [feed_not_literal hstance hc hliteral]
      exact .pass htext rfl fun _ => rfl
    | true =>
      rw [feed_literal hstance hc hliteral]
      refine .literal hstance hc hliteral ?_
      cases hopen : r.closers.isEmpty with
      | true => exact feeds_halted (by rw [stance_complete, hopen]; rfl) c
      | false => exact feeds_commaOrClose (by rw [stance_complete, hopen]; rfl) c

/-- Whatever the next character is, it does one of these. -/
-- what the scanner is at decides which of the lemmas above applies
theorem feeds_feed (r : Repair) (c : Char) : Feeds r c (r.feed c) := by
  cases hstance : r.stance with
  | value => exact feeds_value hstance c
  | key => exact feeds_key hstance c
  | commaOrClose => exact feeds_commaOrClose hstance c
  | literal chars => exact feeds_literal hstance c
  | halted => exact feeds_halted hstance c
  | colon =>
    have htext : r.stance.inText = false := by rw [hstance]; rfl
    have hne : r.stance ≠ .halted := by simp [hstance]
    simp only [feed, hstance]
    split
    · exact .pass htext rfl fun h => absurd h hne
    · refine .pass htext ?_ fun h => absurd h hne
      split <;> rfl
  | keyText escaped =>
    have htext : r.stance.inText = false := by rw [hstance]; rfl
    have hne : r.stance ≠ .halted := by simp [hstance]
    by_cases hquote : c = '"' ∧ escaped = false
    · obtain ⟨rfl, rfl⟩ := hquote
      rw [feed_quote_of_keyText hstance]
      exact .pass htext rfl fun h => absurd h hne
    · rw [feed_keyText hstance hquote]
      exact .pass htext rfl fun h => absurd h hne
  | valueText escaped phase kept =>
    by_cases hquote : c = '"' ∧ escaped = false
    · obtain ⟨rfl, rfl⟩ := hquote
      rw [feed_quote_of_valueText hstance]
      exact .mark (by simp [hstance]) rfl rfl (inText_complete _) (fun _ => rfl) fun hnil =>
        ⟨rfl, closed_complete hnil⟩
    · rw [feed_valueText hstance hquote]
      refine .text hstance ?_
      split
      · next hwhole => exact Or.inl ⟨hwhole, rfl⟩
      · exact Or.inr rfl

/-! ### What has been kept for good -/

/-- What will be kept, whatever follows, provided that anything is; last character first. -/
def settled (r : Repair) : List Char :=
  match r.stance with
  | .valueText _ _ kept => kept
  | _ => r.seen

/-- Outside of string values everything that has been seen is settled. -/
theorem settled_of_not_inText (h : r.stance.inText = false) : r.settled = r.seen := by
  unfold settled
  split
  · next hstance =>
    rw [hstance] at h
    cases h
  · rfl

/-- There the repaired text is that of the checkpoint, if a value has begun by then. -/
theorem repaired_of_not_inText (h : r.stance.inText = false) :
    r.repaired = some d ↔
      ∃ m, r.checkpoint = some m ∧ m.started = true ∧ d = ⟨m.kept.reverse, m.closers⟩ := by
  unfold repaired
  split
  · next hstance =>
    rw [hstance] at h
    cases h
  · cases hm : r.checkpoint with
    | none => simp
    | some m =>
      cases hstarted : m.started with
      | true => simp [hstarted, eq_comm (a := d)]
      | false => simp [hstarted]

/-- Inside a string value the settled part is closed by a quote and the open containers. -/
theorem repaired_of_inText (h : r.stance.inText = true) :
    r.repaired = some ⟨r.settled.reverse, '"' :: r.closers⟩ := by
  cases hstance : r.stance with
  | valueText escaped phase kept => simp only [repaired, settled, hstance]
  | _ =>
    rw [hstance] at h
    cases h

/-- What holds of the scanner behind any text. -/
structure Steady (r : Repair) : Prop where
  settled : r.settled <:+ r.seen
  kept : ∀ m, r.checkpoint = some m → m.kept <:+ r.settled
  started : ∀ m, r.checkpoint = some m → m.started = true → r.started = true
  closed : ∀ m, r.checkpoint = some m → m.closers = [] → m.started = true ∧ r.stance = .halted

theorem steady_start : Steady {} where
  settled := List.suffix_rfl
  kept := nofun
  started := nofun
  closed := nofun

/-- What is kept in front of the closing brackets is settled. -/
theorem Steady.kept_suffix (h : r.Steady) (hd : r.repaired = some d) : d.kept.reverse <:+ r.settled := by
  cases htext : r.stance.inText with
  | false =>
    obtain ⟨m, hm, -, rfl⟩ := (repaired_of_not_inText htext).mp hd
    rw [List.reverse_reverse]
    exact h.kept m hm
  | true =>
    rw [repaired_of_inText htext] at hd
    cases hd
    rw [List.reverse_reverse]

/-- As long as the scanner has not halted, there is something to close. -/
theorem Steady.closing_ne_nil (h : r.Steady) (hne : r.stance ≠ .halted) (hd : r.repaired = some d) :
    d.closing ≠ [] := by
  cases htext : r.stance.inText with
  | false =>
    obtain ⟨m, hm, -, rfl⟩ := (repaired_of_not_inText htext).mp hd
    exact fun hnil => hne (h.closed m hm hnil).2
  | true =>
    rw [repaired_of_inText htext] at hd
    cases hd
    exact List.cons_ne_nil _ _

/-- The second scanner stands that many characters behind the first one, and has taken nothing back. -/
structure Grows (more : List Char) (r r' : Repair) : Prop where
  seen : r'.seen = more.reverse ++ r.seen
  steady : r'.Steady
  repaired : ∀ d, r.repaired = some d →
    ∃ d', r'.repaired = some d' ∧ d.kept <+: d'.kept ∧ (d.closing = [] → d' = d)

theorem Steady.grows (h : r.Steady) : Grows [] r r where
  seen := rfl
  steady := h
  repaired := fun d hd => ⟨d, hd, List.prefix_rfl, fun _ => rfl⟩

/-- Growing composes: what the one keeps of the text the other keeps of it too. -/
theorem Grows.trans {more more' : List Char} (h : Grows more r r') (h' : Grows more' r' r'') :
    Grows (more ++ more') r r'' where
  seen := by rw [h'.seen, h.seen, List.reverse_append, List.append_assoc]
  steady := h'.steady
  repaired := by
    intro d hd
    obtain ⟨d', hd', hkept, hclosed⟩ := h.repaired d hd
    obtain ⟨d'', hd'', hkept', hclosed'⟩ := h'.repaired d' hd'
    refine ⟨d'', hd'', hkept.trans hkept', ?_⟩
    intro hclosing
    obtain rfl := hclosed hclosing
    exact hclosed' hclosing

/-- A step that sets no mark and is in no string value changes nothing about the repaired text. -/
theorem Steady.pass (h : r.Steady) (htext : r.stance.inText = false) (hnext : stance.inText = false)
    (hhalted : r.stance = .halted → stance = .halted) (c : Char) :
    Grows [c] r { r with seen := c :: r.seen, stance := stance } where
  seen := rfl
  steady := by
    have hsettled := settled_of_not_inText (r := { r with seen := c :: r.seen, stance := stance }) hnext
    refine ⟨?_, ?_, h.started, ?_⟩
    · rw [hsettled]
    · intro m hm
      rw [hsettled]
      have hkept := h.kept m hm
      rw [settled_of_not_inText htext] at hkept
      exact hkept.trans (List.suffix_cons c r.seen)
    · intro m hm hclosers
      obtain ⟨hstarted, hstance⟩ := h.closed m hm hclosers
      exact ⟨hstarted, hhalted hstance⟩
  repaired := by
    intro d hd
    refine ⟨d, ?_, List.prefix_rfl, fun _ => rfl⟩
    obtain ⟨m, hm, hstarted, rfl⟩ := (repaired_of_not_inText htext).mp hd
    exact (repaired_of_not_inText hnext).mpr ⟨m, hm, hstarted, rfl⟩

/-- In a string that is a value. -/
theorem Steady.text {escaped : Bool} {phase : BodyPhase} {kept : List Char} (h : r.Steady)
    (hne : r.stance ≠ .halted) (hkept : r.settled <:+ kept) (hkept' : kept <:+ c :: r.seen) :
    Grows [c] r { r with seen := c :: r.seen, stance := .valueText escaped phase kept } where
  seen := rfl
  steady := by
    refine ⟨hkept', ?_, h.started, ?_⟩
    · intro m hm
      exact (h.kept m hm).trans hkept
    · intro m hm hclosers
      exact absurd (h.closed m hm hclosers).2 hne
  repaired := by
    intro d hd
    refine ⟨_, rfl, ?_, fun hclosing => absurd hclosing (h.closing_ne_nil hne hd)⟩
    have hsuffix := (h.kept_suffix hd).trans hkept
    rwa [← List.reverse_prefix, List.reverse_reverse] at hsuffix

theorem Steady.mark {more : List Char} (h : r.Steady) (hne : r.stance ≠ .halted)
    (hseen : r'.seen = more.reverse ++ r.seen) (htext : r'.stance.inText = false)
    (hstarted : r.started = true ∨ r.stance.inText = true → r'.started = true)
    (hclosed : r'.closers = [] → r'.started = true ∧ r'.stance = .halted) : Grows more r r'.mark where
  seen := hseen
  steady := by
    have hsettled : r'.mark.settled = r'.seen := settled_of_not_inText htext
    refine ⟨?_, ?_, ?_, ?_⟩
    · rw [hsettled]
      exact List.suffix_rfl
    · intro m hm
      cases hm
      rw [hsettled]
    · intro m hm hm'
      cases hm
      exact hm'
    · intro m hm hclosers
      cases hm
      exact hclosed hclosers
  -- The checkpoint is replaced by one further on, whose kept text begins with what was kept before.
  repaired := by
    intro d hd
    have hstarted' : r'.started = true := by
      apply hstarted
      cases htext : r.stance.inText with
      | true => exact Or.inr rfl
      | false =>
        obtain ⟨m, hm, hm', -⟩ := (repaired_of_not_inText htext).mp hd
        exact Or.inl (h.started m hm hm')
    refine ⟨⟨r'.seen.reverse, r'.closers⟩, ?_, ?_, fun hclosing => absurd hclosing (h.closing_ne_nil hne hd)⟩
    · exact (repaired_of_not_inText (r := r'.mark) htext).mpr ⟨_, rfl, hstarted', rfl⟩
    · have hsuffix : d.kept.reverse <:+ r'.seen := by
        rw [hseen]
        exact ((h.kept_suffix hd).trans h.settled).trans (List.suffix_append _ _)
      rwa [← List.reverse_prefix, List.reverse_reverse] at hsuffix

/-- Whatever a character does, nothing is taken back. -/
-- the literal is the one case that feeds twice: it completes a value and takes the character then
theorem Feeds.grows (h : Feeds r c r') (hr : r.Steady) : Grows [c] r r' := by
  induction h with
  | pass htext hnext hhalted => exact hr.pass htext hnext hhalted _
  | @quote r c hstance =>
    have htext : r.stance.inText = false := by rw [hstance]; rfl
    refine hr.text (by simp [hstance]) ?_ List.suffix_rfl
    rw [settled_of_not_inText htext]
    exact List.suffix_cons c r.seen
  | @text r c escaped escaped' phase phase' kept kept' hstance hkept =>
    have hsettled : r.settled = kept := by rw [Repair.settled, hstance]
    have hseen := hr.settled.trans (List.suffix_cons c r.seen)
    apply hr.text
    · rw [hstance]
      exact nofun
    · rcases hkept with ⟨-, rfl⟩ | rfl
      · exact hseen
      · rw [hsettled]
    · rcases hkept with ⟨-, rfl⟩ | rfl
      · exact List.suffix_rfl
      · exact hsettled ▸ hseen
  | mark hne _ hseen htext hstarted hclosed => exact hr.mark hne hseen htext hstarted hclosed
  | @literal r r' c chars hstance _ _ _ ih =>
    have hcomplete : Grows [] r r.complete :=
      hr.mark (by simp [hstance]) rfl (inText_complete r) (fun _ => rfl) fun hnil =>
        ⟨rfl, closed_complete hnil⟩
    exact hcomplete.trans (ih hcomplete.steady)

/-- What a text has made of the scanner only grows, whatever follows. -/
theorem Steady.foldl_feed (h : r.Steady) (more : List Char) : Grows more r (more.foldl feed r) := by
  induction more generalizing r with
  | nil => exact h.grows
  | cons c more ih =>
    have hfeed := (feeds_feed r c).grows h
    exact hfeed.trans (ih hfeed.steady)

/-- Behind any text nothing of it is taken back. -/
theorem grows_scan (cs more : List Char) : Grows more (scan cs) (scan (cs ++ more)) := by
  rw [scan, scan, List.foldl_append]
  exact (steady_start.foldl_feed cs).steady.foldl_feed more

theorem steady_scan (cs : List Char) : (scan cs).Steady := (steady_start.foldl_feed cs).steady

theorem seen_scan (cs : List Char) : (scan cs).seen = cs.reverse := by
  rw [scan, (steady_start.foldl_feed cs).seen]
  exact List.append_nil _

/-- In a string that is a value all of the text is kept, or what was kept before. -/
theorem Feeds.kept_cases {escaped : Bool} {phase : BodyPhase} {kept : List Char} (h : Feeds r c r')
    (hstance : r'.stance = .valueText escaped phase kept) :
    kept = c :: r.seen ∧ phase = .whole ∨
      (∃ escaped' phase', r.stance = .valueText escaped' phase' kept) ∧ r'.closers = r.closers := by
  -- Only two constructors end inside a string value, so the others do not meet `hstance`.
  have hnot {now : Stance} (hnow : now.inText = false) : now ≠ .valueText escaped phase kept := by
    rintro rfl
    cases hnow
  induction h with
  | pass _ hnext => exact absurd hstance (hnot hnext)
  | quote =>
    cases hstance
    exact Or.inl ⟨rfl, rfl⟩
  | text hbefore hkept =>
    cases hstance
    rcases hkept with ⟨hphase, hkept⟩ | rfl
    · exact Or.inl ⟨hkept, hphase⟩
    · exact Or.inr ⟨⟨_, _, hbefore⟩, rfl⟩
  | mark _ _ _ hnext => exact absurd hstance (hnot hnext)
  | @literal r r' c chars _ _ _ _ ih =>
    rcases ih hstance with hkept | ⟨⟨escaped', phase', hcomplete⟩, -⟩
    · exact Or.inl hkept
    · have htext := inText_complete r
      rw [hcomplete] at htext
      cases htext

theorem scan_concat (cs : List Char) (c : Char) : scan (cs ++ [c]) = (scan cs).feed c := List.foldl_append

/-- In a string that is a value the scanner stands as it does behind what it has kept. -/
theorem scan_kept {escaped : Bool} {phase : BodyPhase} {kept : List Char}
    (h : (scan cs).stance = .valueText escaped phase kept) :
    ∃ escaped', (scan kept.reverse).stance = .valueText escaped' .whole kept ∧
      (scan kept.reverse).closers = (scan cs).closers := by
  induction cs using List.reverseRecOn generalizing escaped phase kept with
  | nil => cases h
  | append_singleton cs c ih =>
    rw [scan_concat] at h ⊢
    rcases (feeds_feed (scan cs) c).kept_cases h with ⟨rfl, rfl⟩ | ⟨⟨escaped', phase', hbefore⟩, hclosers⟩
    · refine ⟨escaped, ?_⟩
      rw [List.reverse_cons, seen_scan, List.reverse_reverse, scan_concat, h, seen_scan]
      exact ⟨rfl, rfl⟩
    · rw [hclosers]
      exact ih hbefore

end Repair

/-- Of a text that goes on nothing is taken back: what can be read of it is a part of what can be read later, and
once there is nothing to close, it is the same later on. -/
theorem repair_append {text : String} {r : Repaired} (h : repair text = some r) (more : String) :
    r.kept <+: text.toList ∧
      ∃ r', repair (text ++ more) = some r' ∧ r.kept <+: r'.kept ∧ (r.closing = [] → r' = r) := by
  constructor
  · have hsuffix := ((Repair.steady_scan text.toList).kept_suffix h).trans (Repair.steady_scan text.toList).settled
    rw [Repair.seen_scan, List.reverse_suffix] at hsuffix
    exact hsuffix
  · rw [repair, String.toList_append]
    exact (Repair.grows_scan text.toList more.toList).repaired r h

/-- A text that ends in an escape, and one in which the outermost value has been closed. -/
theorem repair_append_in_escape :
    (∃ r', repair ("[1, \"a\\u00" ++ "e9\", tru") = some r' ∧ "[1, \"a".toList <+: r'.kept) ∧
      repair ("[1], " ++ "2]") = some ⟨"[1]".toList, []⟩ := by
  have hopen : repair "[1, \"a\\u00" = some ⟨"[1, \"a".toList, "\"]".toList⟩ := by decide
  have hclosed : repair "[1], " = some ⟨"[1]".toList, []⟩ := by decide
  obtain ⟨-, r', hr', hkept, -⟩ := repair_append hopen "e9\", tru"
  obtain ⟨-, r'', hr'', -, hsame⟩ := repair_append hclosed "2]"
  rw [hsame rfl] at hr''
  exact ⟨⟨r', hr', hkept⟩, hr''⟩

/-! ### The end of the outermost value -/

namespace Repair

variable {r r' : Repair} {m : Checkpoint} {c : Char} {cs : List Char}

/-- A checkpoint is older than the last character, or lies behind it, or it is in front of it because a word or
numeral ends there. -/
theorem Feeds.checkpoint_cases (h : Feeds r c r') (hm : r'.checkpoint = some m) :
    r.checkpoint = some m ∨ m.kept = c :: r.seen ∧ isBlank c = false ∨
      (∃ chars, r.stance = .literal chars ∧ isLiteral chars.reverse = true) ∧ endsLiteral c = true ∧
        r.complete.checkpoint = some m := by
  induction h with
  | pass => exact Or.inl hm
  | quote => exact Or.inl hm
  | text => exact Or.inl hm
  | mark _ hblank hseen =>
    cases hm
    exact Or.inr (Or.inl ⟨hseen, hblank⟩)
  | @literal r r' c chars hstance hc hliteral _ ih =>
    rcases ih hm with hm | ⟨hkept, hblank⟩ | ⟨⟨chars', hcomplete, -⟩, -⟩
    · exact Or.inr (Or.inr ⟨⟨chars, hstance, hliteral⟩, hc, hm⟩)
    · exact Or.inr (Or.inl ⟨hkept, hblank⟩)
    · rw [stance_complete] at hcomplete
      split at hcomplete <;> cases hcomplete

/-- The outermost value ends with a character that is no blank, or it is a word or numeral that a character ends. -/
theorem Steady.kept_of_closed (hr : r.Steady) (hne : r.stance ≠ .halted) (hm : (r.feed c).checkpoint = some m)
    (hclosers : m.closers = []) :
    m.kept = c :: r.seen ∧ isBlank c = false ∨
      m.kept = r.seen ∧ r.closers = [] ∧ endsLiteral c = true ∧ ∃ chars, r.stance = .literal chars := by
  rcases (feeds_feed r c).checkpoint_cases hm with hm | hkept | ⟨⟨chars, hstance, -⟩, hc, hm⟩
  · exact absurd (hr.closed m hm hclosers).2 hne
  · exact Or.inl hkept
  · cases hm
    exact Or.inr ⟨rfl, hclosers, hc, chars, hstance⟩

/-- A scanner that has halted did so at some character. -/
theorem exists_halts (h : (scan cs).stance = .halted) :
    ∃ a c b, cs = a ++ c :: b ∧ (scan a).stance ≠ .halted ∧ ((scan a).feed c).stance = .halted := by
  induction cs using List.reverseRecOn with
  | nil => cases h
  | append_singleton cs c ih =>
    by_cases hbefore : (scan cs).stance = .halted
    · obtain ⟨a, c', b, rfl, ha, hc'⟩ := ih hbefore
      exact ⟨a, c', b ++ [c], by simp, ha, hc'⟩
    · rw [scan, List.foldl_append] at h
      exact ⟨cs, c, [], rfl, hbefore, h⟩

end Repair

/-! ### Complete documents -/

/-- A text without tokens is blank. -/
theorem blank_of_tokens_eq_nil {cs : List Char} (h : tokens cs = []) : ∀ c ∈ cs, isBlank c = true := by
  induction cs with
  | nil => exact nofun
  | cons c cs ih =>
    rw [tokens, Scan.tokens, Scan.feed] at h
    -- a scanner inside a token yields it in the end, so there would be one
    have hkind {s : Scan} {k : TokenKind} (hs : s.kind? = some k) : [] ++ s.tokens cs ≠ [] := by
      obtain ⟨t, rest, htokens, -⟩ := Scan.exists_tokens_of_kind? hs cs
      rw [htokens]
      exact List.cons_ne_nil _ _
    have hstart := Scan.starts_start c
    generalize Scan.start c = found at h hstart
    obtain ⟨s, out⟩ := found
    cases hstart with
    | blank hblank => exact List.forall_mem_cons.mpr ⟨hblank, ih h⟩
    | text => exact absurd h (hkind rfl)
    | word => exact absurd h (hkind rfl)
    | numeral => exact absurd h (hkind rfl)
    | _ => cases h

/-- What is left of a text without the blanks at its end. -/
theorem rdropWhile_append {kept blanks : List Char} (hblanks : ∀ c ∈ blanks, isBlank c = true)
    (hkept : ∀ c ∈ kept.getLast?, isBlank c = false) : (kept ++ blanks).rdropWhile isBlank = kept := by
  have hdrop : kept.reverse.dropWhile isBlank = kept.reverse := by
    cases hreverse : kept.reverse with
    | nil => rfl
    | cons c cs =>
      have hc : isBlank c = false := by
        apply hkept
        rw [List.getLast?_eq_head?_reverse, hreverse]
        rfl
      exact List.dropWhile_cons_of_neg (by simp [hc])
  rw [List.rdropWhile, List.reverse_append, List.dropWhile_append_of_pos, hdrop, List.reverse_reverse]
  simpa using hblanks

/-- Behind all tokens of a document the last checkpoint is behind the outermost value. -/
theorem exists_closed_of_marked {all : List Token} {v : Value} {started : Bool} {m? : Option Checkpoint}
    (h : Marked all all.length started m?) (hall : Runs .start all (.done v)) :
    ∃ m, m? = some m ∧ m.closers = [] := by
  cases h with
  | none _ hnone =>
    -- The reading has come to an end, so there is a token.
    rw [List.eq_nil_of_length_eq_zero hnone] at hall
    cases hall
  | @some m ts p hat _ hprefix _ hquiet =>
    refine ⟨m, rfl, ?_⟩
    have hspelling := Value.eq_spelling_of_ofTokens (Value.ofTokens_eq_ok_iff.mpr hall)
    -- Behind the checkpoint there are only quiet tokens, and the last token of a value is none.
    have hts : ts = all := by
      apply hprefix.eq_of_length_le
      by_contra hlt
      have hroot : v.at? [] = some (0, v) := rfl
      have hlast := (Value.not_quiet hroot).2
      rw [Nat.zero_add, ← hspelling] at hlast
      exact hlast (hquiet _ (by omega) (by omega))
    have hreached := hat.reached
    rw [hts] at hreached
    rw [hat.closers, hreached.unique hall]
    rfl

/-- The last character of a word or numeral does not end it. -/
theorem endsLiteral_getLast? {front part : List Char} {s : Scan} {found : List Token} (hpart : Finds part s found)
    (hs : InLiteral s found) (hletters : ∀ c ∈ part, endsLiteral c = false) :
    ∀ c ∈ (front ++ part).getLast?, isBlank c = false := by
  intro c hc
  cases hlast : part.getLast? with
  | none =>
    obtain rfl := List.getLast?_eq_none_iff.mp hlast
    obtain ⟨rfl, rfl⟩ := hpart
    cases hs
  | some c' =>
    rw [List.getLast?_append, hlast] at hc
    cases hc
    have hends := hletters c (List.mem_of_getLast? hlast)
    by_contra hblank
    rw [Repair.endsLiteral_of_isBlank (Bool.not_eq_false _ ▸ hblank)] at hends
    cases hends

section Document

variable {all : List Token} {v : Value} {a b cs : List Char} {r : Repair} {c : Char}

/-- At the end of a document the scanner has halted, unless it is a word or numeral that might go on. -/
theorem Tracks.halted (h : Tracks all v cs [] r)
    (hends : v.isLiteral = false ∨ ∃ c ∈ cs.getLast?, isBlank c = true) : r.stance = .halted := by
  have hopen {t : TextScan} {s : String} {ts : List Token} (h : (Scan.text t).tokens [] = .text s :: ts) : False :=
    t.not_isWholeText_brokenToken .truncated (Or.inr ⟨s, (List.cons.inj h).1⟩)
  cases h with
  | between hfinds hstage hstance =>
    have hleads := hstage.leads
    cases hleads
    exact hstance
  | @literal front part s passed found stack awaiting hseen hfront hpart hs hletters hstage ha hstance =>
    obtain ⟨t, hfinish, ht⟩ := hs.exists_finish
    have hleads := hstage.leads
    rw [Scan.tokens, hfinish] at hleads
    obtain ⟨stack', awaiting', p', hp, hm, -, hrest⟩ := hleads.exists_moves
    cases hp
    obtain ⟨-, u, hu, rfl⟩ := hm.literal ht
    rcases hends with hv | ⟨c, hc, hblank⟩
    · -- The literal is all of the document.
      generalize hp : supply u stack = p at hrest
      cases hrest
      cases stack with
      | nil =>
        cases hp
        rw [Value.isLiteral_of_value? hu, ht] at hv
        cases hv
      | cons f fs => cases f <;> cases hp
    · rw [hseen] at hc
      rw [endsLiteral_getLast? hpart hs hletters c hc] at hblank
      cases hblank
  | keyText hfinds hstage =>
    obtain ⟨s, ts, htext⟩ := hstage.exists_text
    exact (hopen htext).elim
  | valueText hfinds hstage =>
    obtain ⟨s, ts, htext⟩ := hstage.exists_text
    exact (hopen htext).elim

/-- Where the scanner halts in a document, the outermost value has ended and only blanks follow. -/
theorem Tracks.of_halts (h : Tracks all v (a ++ [c]) b (r.feed c)) (hhalted : (r.feed c).stance = .halted) :
    (∃ m, (r.feed c).checkpoint = some m ∧ m.closers = []) ∧ ∀ c ∈ b, isBlank c = true := by
  -- Only between two tokens does the scanner halt; in the other cases it is inside one.
  cases h with
  | @between passed p hfinds hstage hstance =>
    cases p with
    | reading stack awaiting =>
      rw [hhalted] at hstance
      cases awaiting <;> cases hstance
    | done u =>
      have hall := hstage.split
      have hleads := hstage.leads
      generalize hb : tokens b = ahead at hall hleads
      cases hleads
      rw [List.append_nil] at hall
      have hmarked := hstage.marked
      rw [← hall] at hmarked
      exact ⟨exists_closed_of_marked hmarked (hall ▸ hstage.reached), blank_of_tokens_eq_nil hb⟩
  | literal _ _ _ _ _ _ _ hstance =>
    rw [hhalted] at hstance
    cases hstance
  | keyText _ _ _ _ hstance =>
    rw [hhalted] at hstance
    cases hstance
  | valueText _ _ _ _ _ _ _ hstance =>
    rw [hhalted] at hstance
    cases hstance

/-- Behind a word or numeral outside of all containers only blanks follow. -/
theorem Tracks.of_literal {chars : List Char} (h : Tracks all v a (c :: b) r) (hstance : r.stance = .literal chars)
    (hclosers : r.closers = []) (hc : endsLiteral c = true) :
    (∀ c ∈ a.getLast?, isBlank c = false) ∧ ∀ c' ∈ c :: b, isBlank c' = true := by
  cases h with
  | @literal front part s passed found stack awaiting hseen hfront hpart hs hletters hstage ha _ =>
    rw [hseen]
    refine ⟨endsLiteral_getLast? hpart hs hletters, blank_of_tokens_eq_nil ?_⟩
    -- The literal has ended, and the containers are those of the scanner: there are none.
    obtain ⟨t, ht, hended⟩ := hs.ends hc hstage.leads.literalStands
    have hleads := hstage.leads
    rw [hended.tokens fun c' hc' => by cases hc'; exact hc] at hleads
    obtain ⟨stack', awaiting', p', hp, hm, -, hrest⟩ := hleads.exists_moves
    cases hp
    obtain ⟨-, u, -, rfl⟩ := hm.literal ht
    have hstack := hstage.closers
    rw [hclosers] at hstack
    obtain rfl : stack = [] := List.map_eq_nil_iff.mp hstack.symm
    generalize tokens (c :: b) = ahead at hrest
    cases hrest
    rfl
  | @between passed p _ _ hstance' =>
    rw [hstance] at hstance'
    cases p with
    | done u => cases hstance'
    | reading stack awaiting => cases awaiting <;> cases hstance'
  | keyText _ _ _ _ hstance' =>
    rw [hstance] at hstance'
    cases hstance'
  | valueText _ _ _ _ _ _ _ hstance' =>
    rw [hstance] at hstance'
    cases hstance'

/-- Where the scanner halts in a document, all of the document but the blanks at its end is kept. -/
theorem Tracks.repaired_of_halts (h : Tracks all v a (c :: b) (Repair.scan a))
    (hne : (Repair.scan a).stance ≠ .halted) (hhalted : ((Repair.scan a).feed c).stance = .halted) :
    ((Repair.scan a).feed c).repaired = some ⟨(a ++ c :: b).rdropWhile isBlank, []⟩ := by
  have hsteady := Repair.steady_scan a
  obtain ⟨⟨m, hm, hclosers⟩, hblanks⟩ := h.feed.of_halts hhalted
  obtain ⟨hstarted, -⟩ := ((Repair.feeds_feed _ c).grows hsteady).steady.closed m hm hclosers
  refine (Repair.repaired_of_not_inText (by rw [hhalted]; rfl)).mpr ⟨m, hm, hstarted, ?_⟩
  rw [hclosers]
  rcases hsteady.kept_of_closed hne hm hclosers with ⟨hkept, hc⟩ | ⟨hkept, hnone, hc, chars, hstance⟩
  · have hlast : ∀ c' ∈ (a ++ [c]).getLast?, isBlank c' = false := by
      intro c' hc'
      rw [List.getLast?_append] at hc'
      cases hc'
      by_contra hblank
      rw [Repair.isBlank_of_isBlank (Bool.not_eq_false _ ▸ hblank)] at hc
      cases hc
    rw [hkept, Repair.seen_scan, List.append_cons, rdropWhile_append hblanks hlast, List.reverse_cons,
      List.reverse_reverse]
  · obtain ⟨hlast, hblanks⟩ := h.of_literal hstance hnone hc
    rw [hkept, Repair.seen_scan, rdropWhile_append hblanks hlast, List.reverse_reverse]

end Document

/-- Of a complete document exactly the blanks at its end are dropped, along with all that stands behind them. A
word or numeral by itself must have a blank behind it, as it might go on otherwise. -/
theorem repair_of_complete {document : String} {v : Value} (hparse : parse document = .ok v)
    (hends : v.isLiteral = false ∨ ∃ c ∈ document.toList.getLast?, isBlank c = true) (more : String) :
    repair (document ++ more) = some ⟨document.toList.rdropWhile isBlank, []⟩ := by
  have hruns : Runs .start (tokens (document.toList ++ [])) (.done v) := by
    rw [List.append_nil]
    exact Value.ofTokens_eq_ok_iff.mp hparse
  obtain ⟨a, c, b, hsplit, hne, hhalted⟩ := Repair.exists_halts ((Tracks.scan hruns).halted hends)
  rw [List.append_nil, hsplit] at hruns
  have hclosed := (Tracks.scan hruns).repaired_of_halts hne hhalted
  rw [← hsplit] at hclosed
  -- Once the outermost value is closed nothing changes any more.
  have hgrows : Repair.Grows (b ++ more.toList) ((Repair.scan a).feed c) (Repair.scan (document ++ more).toList) := by
    have hmore := ((Repair.feeds_feed _ c).grows (Repair.steady_scan a)).steady.foldl_feed (b ++ more.toList)
    have htext : (document ++ more).toList = a ++ c :: (b ++ more.toList) := by
      rw [String.toList_append, hsplit, List.append_assoc, List.cons_append]
    rw [htext]
    show Repair.Grows _ _ ((a ++ c :: (b ++ more.toList)).foldl Repair.feed {})
    rw [List.foldl_append]
    exact hmore
  obtain ⟨d, hd, -, hsame⟩ := hgrows.repaired _ hclosed
  rw [repair, hd, hsame rfl]

/-- An object whose last string ends like the document, and a numeral with a blank behind it. -/
theorem repair_of_complete_array :
    repair (" \x7b\"a\": [1, \"b\\\"]\x7d\"]\x7d \n" ++ "] \"x") =
        some ⟨" \x7b\"a\": [1, \"b\\\"]\x7d\"]\x7d".toList, []⟩ ∧
      repair ("12\t" ++ "34") = some ⟨"12".toList, []⟩ := by
  have harray : parse " \x7b\"a\": [1, \"b\\\"]\x7d\"]\x7d \n" =
      .ok (.object [("a", .array [.number (.integer 1), .text "b\"]\x7d"])]) := rfl
  have hnumeral : parse "12\t" = .ok (.number (.integer 12)) := rfl
  exact ⟨repair_of_complete harray (Or.inl rfl) _, repair_of_complete hnumeral (Or.inr ⟨'\t', rfl, rfl⟩) _⟩

end GuidedDecoding.Json
