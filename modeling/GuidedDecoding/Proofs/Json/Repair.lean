import GuidedDecoding.Proofs.Json.Literal
import GuidedDecoding.Proofs.Json.Text
import GuidedDecoding.Proofs.Json.Truncation

/-!
# Following a document as it is being written

The scanner of unfinished documents follows a beginning of a document that can be read (`Tracks.scan`). The
invariant `Tracks` relates it to the scanner of tokens, which stands at the same place, and to the reading of
the document's value, which has the same containers open and awaits the same (`Stage`).

The checkpoint lies where the open containers may be closed, and what has been passed since then are only
separators and keys (`Marked`).
-/

namespace GuidedDecoding.Json

open Progress
open Repair (Checkpoint Stance endsLiteral)
open Scan (Finds InLiteral)

/-! ### Checkpoints -/

/-- The tokens of a text, however it goes on behind it, unless its last literal goes on. -/
def Cut (cs : List Char) (ts : List Token) : Prop :=
  ∀ more : List Char, (∀ c ∈ more.head?, endsLiteral c = true) → tokens (cs ++ more) = ts ++ tokens more

/-- At a checkpoint the text so far has these tokens, they lead to a point of the reading where the open
containers may be closed, and what closes them is known. -/
structure Repair.Checkpoint.At (m : Checkpoint) (ts : List Token) (p : Progress) : Prop where
  cut : Cut m.kept.reverse ts
  reached : Runs .start ts p
  closable : Closable p
  closers : m.closers = p.stack.map Frame.closer

def Quiet (all : List Token) (j : Nat) : Prop :=
  all[j]? = some .comma ∨ all[j]? = some .colon ∨ ∃ s, all[j]? = some (.text s) ∧ all[j + 1]? = some .colon

/-- What is known of the last checkpoint when `n` tokens of the document have been passed. -/
inductive Marked (all : List Token) (n : Nat) (started : Bool) : Option Checkpoint → Prop
  | none : started = false → n = 0 → Marked all n started none
  | some {m : Checkpoint} {ts : List Token} {p : Progress} :
      m.At ts p → m.started = started → ts <+: all → ts.length ≤ n →
      (∀ j, ts.length ≤ j → j < n → Quiet all j) → (started = false → ∃ t, ts = [t] ∧ t.value? = none) →
      Marked all n started (some m)

theorem Cut.tokens_eq {cs : List Char} {ts : List Token} (h : Cut cs ts) : tokens cs = ts := by
  have hnil : tokens (cs ++ []) = ts ++ tokens [] := h [] nofun
  rw [List.append_nil] at hnil
  rw [hnil]
  exact List.append_nil ts

/-- Between tokens nothing goes on, so the tokens are cut there. -/
theorem cut_of_between {cs : List Char} {ts : List Token} (h : Finds cs .between ts) : Cut cs ts := by
  intro more _
  exact h.tokens_append more

/-- At the end of a literal they are too, if it ends there. -/
theorem cut_of_endsAs {front part : List Char} {s : Scan} {passed found : List Token} {t : Token}
    (hfront : Finds front .between passed) (hpart : Finds part s found) (h : Scan.EndsAs s found t) :
    Cut (front ++ part) (passed ++ [t]) := by
  intro more hmore
  rw [List.append_assoc, hfront.tokens_append, List.append_assoc]
  show passed ++ tokens (part ++ more) = passed ++ ([t] ++ tokens more)
  rw [hpart.tokens_append, h.tokens hmore]
  rfl

/-- A quiet token needs no new checkpoint. -/
theorem Marked.quiet {all : List Token} {n : Nat} {started : Bool} {m : Option Checkpoint}
    (h : Marked all n started m) (hn : n ≠ 0) (hquiet : Quiet all n) : Marked all (n + 1) started m := by
  cases h with
  | none _ h => exact absurd h hn
  | some hat hstarted hall hle hbetween hfirst =>
    refine .some hat hstarted hall (Nat.le_succ_of_le hle) ?_ hfirst
    intro j hj hlt
    rcases Nat.lt_succ_iff_lt_or_eq.mp hlt with hlt | rfl
    · exact hbetween j hj hlt
    · exact hquiet

/-! ### Between the tokens of a document -/

def Progress.stance : Progress → Stance
  | .reading _ .value | .reading _ .itemOrClose => .value
  | .reading _ .key | .reading _ .keyOrClose => .key
  | .reading _ .colon => .colon
  | .reading _ .commaOrClose => .commaOrClose
  | .done _ => .halted

theorem Awaiting.IsValue.stance {awaiting : Awaiting} (h : awaiting.IsValue) (stack : List Frame) :
    (Progress.reading stack awaiting).stance = .value := by
  cases h <;> rfl

theorem Awaiting.IsKey.stance {awaiting : Awaiting} (h : awaiting.IsKey) (stack : List Frame) :
    (Progress.reading stack awaiting).stance = .key := by
  cases h <;> rfl

/-- Behind a value the scanner expects a comma or the end of the container, if there is one. -/
theorem stance_supply {α : Type} (u : Value) (fs : List Frame) (g : Frame → α) :
    (supply u fs).stance = if (fs.map g).isEmpty then .halted else .commaOrClose := by
  cases fs with
  | nil => rfl
  | cons f fs => cases f <;> rfl

namespace Repair

variable {r : Repair} {c : Char}

theorem feed_halted (h : r.stance = .halted) : r.feed c = { r with seen := c :: r.seen } := by
  simp only [feed, h]

theorem feed_value (h : r.stance = .value) :
    r.feed c = if isBlank c then { r with seen := c :: r.seen } else begin { r with seen := c :: r.seen } c := by
  simp only [feed, h]

theorem feed_commaOrClose (h : r.stance = .commaOrClose) : r.feed c = separate { r with seen := c :: r.seen } c := by
  simp only [feed, h]

/-- Between tokens a blank does nothing. -/
theorem feed_blank {p : Progress} (h : r.stance = p.stance) (hc : isBlank c = true) :
    r.feed c = { r with seen := c :: r.seen } := by
  cases p with
  | done v => exact feed_halted h
  | reading stack awaiting =>
    cases awaiting <;>
    · simp only [Progress.stance] at h
      simp only [feed, separate, h, hc, if_true]

/-- A bracket that closes the innermost container, where it may stand. -/
theorem feed_closer {f : Frame} {closers : List Char} (hclosers : r.closers = f.closer :: closers)
    (hstance : r.stance = .commaOrClose ∨ (r.stance = .value ∧ f.closer = ']') ∨
      (r.stance = .key ∧ f.closer = '}')) :
    r.feed f.closer = leave { r with seen := f.closer :: r.seen } := by
  rcases hstance with h | ⟨h, hf⟩ | ⟨h, hf⟩
  · rw [feed_commaOrClose h]
    cases f <;> simp [separate, isBlank, Frame.closer, hclosers]
  · rw [feed_value h, hf]
    rw [hf] at hclosers
    simp [begin, isBlank, hclosers]
  · rw [hf]
    rw [hf] at hclosers
    simp [feed, h, isBlank, hclosers]

theorem feed_closeArray {items : List Value} {fs : List Frame} {awaiting : Awaiting}
    (ha : awaiting = .itemOrClose ∨ awaiting = .commaOrClose)
    (hstance : r.stance = (Progress.reading (.array items :: fs) awaiting).stance)
    (hclosers : r.closers = (Frame.array items :: fs).map Frame.closer) :
    r.feed ']' = leave { r with seen := ']' :: r.seen } := by
  refine feed_closer (f := .array items) hclosers ?_
  rcases ha with rfl | rfl
  · exact Or.inr (Or.inl ⟨hstance, rfl⟩)
  · exact Or.inl hstance

theorem feed_closeObject {members : List (String × Value)} {key : String} {fs : List Frame} {awaiting : Awaiting}
    (ha : awaiting = .keyOrClose ∨ awaiting = .commaOrClose)
    (hstance : r.stance = (Progress.reading (.object members key :: fs) awaiting).stance)
    (hclosers : r.closers = (Frame.object members key :: fs).map Frame.closer) :
    r.feed '}' = leave { r with seen := '}' :: r.seen } := by
  refine feed_closer (f := .object members key) hclosers ?_
  rcases ha with rfl | rfl
  · exact Or.inr (Or.inr ⟨hstance, rfl⟩)
  · exact Or.inl hstance

/-- A comma behind a value, where the reading goes on to `p`. -/
theorem feed_comma {stack : List Frame} {p : Progress} (hm : Moves stack .commaOrClose .comma p)
    (hstance : r.stance = .commaOrClose) (hclosers : r.closers = stack.map Frame.closer) :
    r.feed ',' = { r with seen := ',' :: r.seen, stance := p.stance } := by
  have hfeed : r.feed ',' = { r with
      seen := ',' :: r.seen
      stance := if r.closers.head? = some '}' then .key else .value } := by
    rw [feed_commaOrClose hstance]
    simp [separate, isBlank]
  have hnext : (if r.closers.head? = some '}' then Stance.key else .value) = p.stance := by
    rw [hclosers]
    cases hm with
    | scalar _ hv => cases hv
    | commaMember => rfl
    | commaItem hnone =>
      cases stack with
      | nil => rfl
      | cons f fs =>
        cases f with
        | array items => rfl
        | object members key => exact absurd rfl (hnone members key fs)
  rw [hfeed, hnext]

theorem feed_colon (h : r.stance = .colon) : r.feed ':' = { r with seen := ':' :: r.seen, stance := .value } := by
  simp [feed, h, isBlank]

theorem feed_quote_of_key (h : r.stance = .key) :
    r.feed '"' = { r with seen := '"' :: r.seen, stance := .keyText false } := by
  simp [feed, h, isBlank]

theorem feed_quote_of_keyText (h : r.stance = .keyText false) :
    r.feed '"' = { r with seen := '"' :: r.seen, stance := .colon } := by
  simp [feed, h]

theorem feed_quote_of_valueText {phase : BodyPhase} {kept : List Char} (h : r.stance = .valueText false phase kept) :
    r.feed '"' = complete { r with seen := '"' :: r.seen } := by
  simp [feed, h]

theorem begin_literal (h : endsLiteral c = false) (h' : c ∉ ['{', '[', '"']) :
    r.begin c = { r with stance := .literal [c] } := by
  have hclose : c ≠ ']' := by
    rintro rfl
    cases h
  simp only [List.mem_cons, List.not_mem_nil, or_false, not_or] at h'
  simp [begin, h, h', hclose]

theorem feed_literal_more {chars : List Char} (h : r.stance = .literal chars) (hc : endsLiteral c = false) :
    r.feed c = { r with seen := c :: r.seen, stance := .literal (c :: chars) } := by
  simp [feed, h, hc]

/-- Where a value ends, its last character leads on from the same scanner as if it had ended before. -/
theorem feed_literal {chars : List Char} (h : r.stance = .literal chars) (hc : endsLiteral c = true)
    (hliteral : isLiteral chars.reverse = true) : r.feed c = r.complete.feed c := by
  have hfeed : r.feed c = if r.complete.stance = .halted then { r.complete with seen := c :: r.seen }
      else separate { r.complete with seen := c :: r.seen } c := by
    simp only [feed, h, hc, hliteral, Bool.not_true, Bool.false_eq_true, if_false]
  rw [hfeed]
  have hstance : r.complete.stance = if r.closers.isEmpty then .halted else .commaOrClose := rfl
  cases hclosers : r.closers.isEmpty with
  | true =>
    rw [hclosers, if_pos rfl] at hstance
    rw [if_pos hstance, feed_halted hstance]
    rfl
  | false =>
    rw [hclosers, if_neg Bool.false_ne_true] at hstance
    have hne : r.complete.stance ≠ .halted := by
      rw [hstance]
      decide
    rw [feed_commaOrClose hstance, if_neg hne]
    rfl

theorem feed_keyText {escaped : Bool} (h : r.stance = .keyText escaped) (hquote : ¬(c = '"' ∧ escaped = false)) :
    r.feed c = { r with seen := c :: r.seen, stance := .keyText (!escaped && c = '\\') } := by
  cases escaped with
  | true => simp [feed, h]
  | false =>
    have hc : c ≠ '"' := fun hc => hquote ⟨hc, rfl⟩
    by_cases hslash : c = '\\'
    · simp [feed, h, hslash]
    · simp [feed, h, hslash, hc]

theorem feed_valueText {escaped : Bool} {phase : BodyPhase} {kept : List Char}
    (h : r.stance = .valueText escaped phase kept) (hquote : ¬(c = '"' ∧ escaped = false)) :
    r.feed c = { r with
      seen := c :: r.seen
      stance := .valueText (!escaped && c = '\\') (phase.feed c)
        (if phase.feed c = .whole then c :: r.seen else kept) } := by
  have hnot : ¬(c = '"' ∧ (!escaped) = true) := by simpa using hquote
  simp only [feed, h, if_neg hnot]

end Repair

section Stage

variable {all : List Token} {v : Value}

/-- The text `seen` of a document has the tokens `passed`, behind which come the tokens `ahead`. The reading of
the document has come to `p` there, and the scanner `r` agrees with it. -/
structure Stage (all : List Token) (v : Value) (seen : List Char) (passed ahead : List Token) (p : Progress)
    (r : Repair) : Prop where
  split : all = passed ++ ahead
  reached : Runs .start passed p
  leads : Runs p ahead (.done v)
  seen : r.seen = seen.reverse
  closers : r.closers = p.stack.map Frame.closer
  nested : 2 ≤ r.closers.length → r.started = true
  marked : Marked all passed.length r.started r.checkpoint

variable {seen : List Char} {passed ahead : List Token} {p p' : Progress} {r : Repair} {t : Token} {c : Char}

/-- At the start of a document all its tokens are ahead. -/
theorem stage_start (h : Runs .start all (.done v)) : Stage all v [] [] all .start {} where
  split := rfl
  reached := .nil
  leads := h
  seen := rfl
  closers := rfl
  nested := fun h => absurd h (by decide)
  marked := .none rfl rfl

namespace Stage

theorem next (h : Stage all v seen passed (t :: ahead) p r) :
    ∃ stack awaiting p', p = .reading stack awaiting ∧ Moves stack awaiting t p' ∧
      Runs .start (passed ++ [t]) p' ∧ Runs p' ahead (.done v) := by
  obtain ⟨stack, awaiting, p', hp, hm, hstep, hrest⟩ := h.leads.exists_moves
  exact ⟨stack, awaiting, p', hp, hm, runs_append.mpr ⟨p, h.reached, hstep⟩, hrest⟩

theorem split_next (h : Stage all v seen passed (t :: ahead) p r) : all = (passed ++ [t]) ++ ahead := by
  rw [h.split, List.append_assoc, List.singleton_append]

/-- A character that completes no token. -/
theorem stay (h : Stage all v seen passed ahead p r) (c : Char) (stance : Stance) :
    Stage all v (seen ++ [c]) passed ahead p { r with seen := c :: r.seen, stance := stance } where
  split := h.split
  reached := h.reached
  leads := h.leads
  seen := by simp [h.seen]
  closers := h.closers
  nested := h.nested
  marked := h.marked

theorem pass (h : Stage all v seen passed (t :: ahead) p r) (hp : p ≠ .start)
    (hreached : Runs .start (passed ++ [t]) p') (hleads : Runs p' ahead (.done v))
    (hclosers : p'.stack.map Frame.closer = p.stack.map Frame.closer) (hquiet : Quiet all passed.length)
    (c : Char) (stance : Stance) :
    Stage all v (seen ++ [c]) (passed ++ [t]) ahead p' { r with seen := c :: r.seen, stance := stance } where
  split := h.split_next
  reached := hreached
  leads := hleads
  seen := by simp [h.seen]
  closers := h.closers.trans hclosers.symm
  nested := h.nested
  marked := by
    have hn : passed.length ≠ 0 := by
      intro hlength
      obtain rfl := List.eq_nil_of_length_eq_zero hlength
      exact hp (h.reached.unique .nil)
    rw [List.length_append, List.length_singleton]
    exact h.marked.quiet hn hquiet

/-- Behind a token at which the text can be closed. -/
theorem mark (h : Stage all v seen passed (t :: ahead) p r) {seen' : List Char} {r' : Repair}
    (hreached : Runs .start (passed ++ [t]) p') (hleads : Runs p' ahead (.done v))
    (hcut : Cut seen' (passed ++ [t])) (hclosable : Closable p')
    (hseen : r'.seen = seen'.reverse) (hclosers : r'.closers = p'.stack.map Frame.closer)
    (hnested : 2 ≤ r'.closers.length → r'.started = true)
    (hfirst : r'.started = false → ∃ t', passed ++ [t] = [t'] ∧ t'.value? = none) :
    Stage all v seen' (passed ++ [t]) ahead p' r'.mark where
  split := h.split_next
  reached := hreached
  leads := hleads
  seen := hseen
  closers := hclosers
  nested := hnested
  marked := by
    refine .some ⟨?_, hreached, hclosable, hclosers⟩ rfl ⟨ahead, h.split_next.symm⟩ (Nat.le_refl _) ?_ hfirst
    · show Cut r'.seen.reverse _
      rw [hseen, List.reverse_reverse]
      exact hcut
    · intro j hj hlt
      exact absurd hlt (Nat.not_lt.mpr hj)

theorem enter {f : Frame} {stack : List Frame} {awaiting awaiting' : Awaiting}
    (h : Stage all v seen passed (t :: ahead) (.reading stack awaiting) r) (ha : awaiting.IsValue)
    (ht : t.value? = none) (hreached : Runs .start (passed ++ [t]) (.reading (f :: stack) awaiting'))
    (hleads : Runs (.reading (f :: stack) awaiting') ahead (.done v))
    (hclosable : Closable (.reading (f :: stack) awaiting')) (hcut : Cut (seen ++ [c]) (passed ++ [t]))
    (stance : Stance) :
    Stage all v (seen ++ [c]) (passed ++ [t]) ahead (.reading (f :: stack) awaiting')
      (Repair.enter { r with seen := c :: r.seen } f.closer stance) := by
  refine h.mark hreached hleads hcut hclosable (by simp [h.seen]) ?_ ?_ ?_
  · show f.closer :: r.closers = _
    rw [h.closers]
    rfl
  · show 2 ≤ r.closers.length + 1 → (r.started || !r.closers.isEmpty) = true
    intro hlength
    cases hclosers : r.closers with
    | nil =>
      rw [hclosers] at hlength
      exact absurd hlength (by decide)
    | cons => simp
  · show (r.started || !r.closers.isEmpty) = false → _
    intro hstarted
    -- Outside of all containers no token has been passed.
    have hclosers : r.closers = [] := by simp_all
    rw [h.closers] at hclosers
    obtain rfl : stack = [] := List.map_eq_nil_iff.mp hclosers
    have hspells : Spells ([] ++ passed) (.reading [] awaiting) := h.reached.spells (.value [])
    have hpassed : [] ++ passed = [] := hspells.eq_leads ha
    rw [List.nil_append] at hpassed
    rw [hpassed]
    exact ⟨t, rfl, ht⟩

theorem complete {u : Value} {stack : List Frame} {awaiting : Awaiting} {seen' : List Char}
    (h : Stage all v seen passed (t :: ahead) (.reading stack awaiting) r)
    (hreached : Runs .start (passed ++ [t]) (supply u stack)) (hleads : Runs (supply u stack) ahead (.done v))
    (hcut : Cut seen' (passed ++ [t])) (stance : Stance) :
    Stage all v seen' (passed ++ [t]) ahead (supply u stack)
      (Repair.complete { r with seen := seen'.reverse, stance := stance }) :=
  h.mark hreached hleads hcut (closable_supply u stack) rfl (h.closers.trans (closer_supply u stack).symm)
    (fun _ => rfl) (fun h => nomatch h)

theorem stance_complete {stack : List Frame} {awaiting : Awaiting}
    (h : Stage all v seen passed ahead (.reading stack awaiting) r) (u : Value) :
    r.complete.stance = (supply u stack).stance := by
  have hclosers : r.closers = stack.map Frame.closer := h.closers
  rw [stance_supply u stack Frame.closer, ← hclosers]
  rfl

theorem leave {u : Value} {f : Frame} {fs : List Frame} {awaiting : Awaiting}
    (h : Stage all v seen passed (t :: ahead) (.reading (f :: fs) awaiting) r)
    (hreached : Runs .start (passed ++ [t]) (supply u fs)) (hleads : Runs (supply u fs) ahead (.done v))
    (hcut : Cut (seen ++ [c]) (passed ++ [t])) :
    Stage all v (seen ++ [c]) (passed ++ [t]) ahead (supply u fs) (Repair.leave { r with seen := c :: r.seen }) ∧
      (Repair.leave { r with seen := c :: r.seen }).stance = (supply u fs).stance := by
  have hclosers : r.closers = f.closer :: fs.map Frame.closer := h.closers
  -- the outermost container ends the document, and any other one has been opened inside it
  cases fs with
  | nil =>
    rw [Repair.leave]
    simp only [hclosers, List.map_nil]
    refine ⟨?_, rfl⟩
    exact h.mark hreached hleads hcut (closable_supply u []) (by simp [h.seen]) rfl
      (fun _ => rfl) (fun h => nomatch h)
  | cons f' fs =>
    rw [Repair.leave]
    simp only [hclosers, List.map_cons]
    have hstarted : r.started = true := h.nested (by simp [hclosers])
    refine ⟨?_, ?_⟩
    · refine h.mark hreached hleads hcut (closable_supply u (f' :: fs)) (by simp [h.seen])
        (closer_supply u (f' :: fs)).symm (fun _ => hstarted) ?_
      intro hnot
      rw [hstarted] at hnot
      cases hnot
    · rw [stance_supply u (f' :: fs) Frame.closer]
      rfl

end Stage

/-! ### Inside a token -/

/-- The scanner of a document that is being written has followed the text `seen` of a document, behind which
comes `rest`. -/
inductive Tracks (all : List Token) (v : Value) (seen rest : List Char) (r : Repair) : Prop
  | between {passed : List Token} {p : Progress} : Finds seen .between passed →
      Stage all v seen passed (tokens rest) p r → r.stance = p.stance → Tracks all v seen rest r
  | literal {front part : List Char} {s : Scan} {passed found : List Token} {stack : List Frame}
      {awaiting : Awaiting} : seen = front ++ part → Finds front .between passed → Finds part s found →
      InLiteral s found → (∀ c ∈ part, endsLiteral c = false) →
      Stage all v seen passed (found ++ s.tokens rest) (.reading stack awaiting) r → awaiting.IsValue →
      r.stance = .literal part.reverse → Tracks all v seen rest r
  | keyText {t : TextScan} {phase : Repair.BodyPhase} {escaped : Bool} {passed : List Token}
      {stack : List Frame} {awaiting : Awaiting} : Finds seen (.text t) passed →
      Stage all v seen passed ((Scan.text t).tokens rest) (.reading stack awaiting) r → awaiting.IsKey →
      TextScan.Fits t.phase phase escaped → r.stance = .keyText escaped → Tracks all v seen rest r
  | valueText {t t' : TextScan} {phase : Repair.BodyPhase} {escaped : Bool} {kept : List Char}
      {passed : List Token} {stack : List Frame} {awaiting : Awaiting} : Finds seen (.text t) passed →
      Stage all v seen passed ((Scan.text t).tokens rest) (.reading stack awaiting) r → awaiting.IsValue →
      TextScan.Fits t.phase phase escaped → kept.reverse <+: seen → Finds kept.reverse (.text t') passed →
      t'.phase = .plain → r.stance = .valueText escaped phase kept → Tracks all v seen rest r

/-! ### A character between tokens -/

theorem ne_start {stack : List Frame} {awaiting : Awaiting} (h : awaiting ≠ .value) :
    Progress.reading stack awaiting ≠ .start := by
  intro heq
  cases heq
  exact h rfl

theorem ne_start_of_isKey {stack : List Frame} {awaiting : Awaiting} (h : awaiting.IsKey) :
    Progress.reading stack awaiting ≠ .start := by
  apply ne_start
  rintro rfl
  cases h

/-- Where a colon is due, it comes. -/
theorem Runs.colon {stack : List Frame} {ts : List Token} (h : Runs (.reading stack .colon) ts (.done v)) :
    ∃ ts', ts = .colon :: ts' := by
  cases ts with
  | nil => cases h
  | cons t ts =>
    obtain ⟨stack', awaiting, p', hp, hm, -, -⟩ := h.exists_moves
    cases hp
    cases hm with
    | colon => exact ⟨ts, rfl⟩
    | scalar ha => cases ha
    | openArray ha => cases ha
    | openObject ha => cases ha
    | key ha => cases ha
    | closeArray ha => rcases ha with h | h <;> cases h
    | closeObject ha => rcases ha with h | h <;> cases h

/-- A string in a document is read as a text. -/
theorem exists_text_of_moves {stack : List Frame} {awaiting : Awaiting} (h : Moves stack awaiting t p)
    (ht : t.kind? = some .text) : ∃ s, t = .text s := by
  cases h with
  | scalar _ hv =>
    cases t with
    | text s => exact ⟨s, rfl⟩
    | unpairedText => cases hv
    | brokenText => cases hv
    | _ => cases ht
  | key => exact ⟨_, rfl⟩
  | _ => cases ht

namespace Stage

variable {rest : List Char}

theorem getElem?_next (h : Stage all v seen passed (t :: ahead) p r) : all[passed.length]? = some t := by
  rw [h.split]
  simp

theorem feed_openArray (h : Stage all v seen passed (.openArray :: tokens rest) p r) (hstance : r.stance = p.stance)
    (hfinds : Finds (seen ++ ['[']) .between (passed ++ [.openArray])) :
    Tracks all v (seen ++ ['[']) rest (r.feed '[') := by
  obtain ⟨stack, awaiting, p', rfl, hm, hreached, hleads⟩ := h.next
  cases hm with
  | scalar _ hv => cases hv
  | openArray ha =>
    rw [Repair.feed_value (hstance.trans (ha.stance stack))]
    exact .between hfinds (h.enter ha rfl hreached hleads .items (cut_of_between hfinds) .value) rfl

theorem feed_openObject (h : Stage all v seen passed (.openObject :: tokens rest) p r)
    (hstance : r.stance = p.stance) (hfinds : Finds (seen ++ ['{']) .between (passed ++ [.openObject])) :
    Tracks all v (seen ++ ['{']) rest (r.feed '{') := by
  obtain ⟨stack, awaiting, p', rfl, hm, hreached, hleads⟩ := h.next
  cases hm with
  | scalar _ hv => cases hv
  | openObject ha =>
    rw [Repair.feed_value (hstance.trans (ha.stance stack))]
    exact .between hfinds (h.enter ha rfl hreached hleads .members (cut_of_between hfinds) .key) rfl

theorem feed_closeArray (h : Stage all v seen passed (.closeArray :: tokens rest) p r)
    (hstance : r.stance = p.stance) (hfinds : Finds (seen ++ [']']) .between (passed ++ [.closeArray])) :
    Tracks all v (seen ++ [']']) rest (r.feed ']') := by
  obtain ⟨stack, awaiting, p', rfl, hm, hreached, hleads⟩ := h.next
  cases hm with
  | scalar _ hv => cases hv
  | @closeArray items fs _ ha =>
    rw [Repair.feed_closeArray ha hstance h.closers]
    obtain ⟨hstage, hstance'⟩ := h.leave hreached hleads (cut_of_between hfinds)
    exact .between hfinds hstage hstance'

theorem feed_closeObject (h : Stage all v seen passed (.closeObject :: tokens rest) p r)
    (hstance : r.stance = p.stance) (hfinds : Finds (seen ++ ['}']) .between (passed ++ [.closeObject])) :
    Tracks all v (seen ++ ['}']) rest (r.feed '}') := by
  obtain ⟨stack, awaiting, p', rfl, hm, hreached, hleads⟩ := h.next
  cases hm with
  | scalar _ hv => cases hv
  | @closeObject members key fs _ ha =>
    rw [Repair.feed_closeObject ha hstance h.closers]
    obtain ⟨hstage, hstance'⟩ := h.leave hreached hleads (cut_of_between hfinds)
    exact .between hfinds hstage hstance'

theorem feed_comma (h : Stage all v seen passed (.comma :: tokens rest) p r) (hstance : r.stance = p.stance)
    (hfinds : Finds (seen ++ [',']) .between (passed ++ [.comma])) :
    Tracks all v (seen ++ [',']) rest (r.feed ',') := by
  obtain ⟨stack, awaiting, p', rfl, hm, hreached, hleads⟩ := h.next
  have hquiet : Quiet all passed.length := Or.inl h.getElem?_next
  obtain ⟨rfl, hclosers⟩ : awaiting = .commaOrClose ∧ p'.stack.map Frame.closer = stack.map Frame.closer := by
    cases hm with
    | scalar _ hv => cases hv
    | commaMember => exact ⟨rfl, rfl⟩
    | commaItem => exact ⟨rfl, rfl⟩
  rw [Repair.feed_comma hm hstance h.closers]
  exact .between hfinds (h.pass (ne_start (by decide)) hreached hleads hclosers hquiet _ _) rfl

theorem feed_colon (h : Stage all v seen passed (.colon :: tokens rest) p r) (hstance : r.stance = p.stance)
    (hfinds : Finds (seen ++ [':']) .between (passed ++ [.colon])) :
    Tracks all v (seen ++ [':']) rest (r.feed ':') := by
  obtain ⟨stack, awaiting, p', rfl, hm, hreached, hleads⟩ := h.next
  cases hm with
  | scalar _ hv => cases hv
  | colon =>
    rw [Repair.feed_colon hstance]
    exact .between hfinds
      (h.pass (ne_start (by decide)) hreached hleads rfl (Or.inr (Or.inl h.getElem?_next)) _ _) rfl

theorem feed_quote (h : Stage all v seen passed ((Scan.text {}).tokens rest) p r) (hstance : r.stance = p.stance)
    (hfinds : Finds (seen ++ ['"']) (.text {}) passed) : Tracks all v (seen ++ ['"']) rest (r.feed '"') := by
  obtain ⟨t, ts, htokens, ht⟩ := Scan.exists_tokens_of_kind? (s := .text {}) rfl rest
  have hnext := h
  rw [htokens] at hnext
  obtain ⟨stack, awaiting, p', rfl, hm, -, -⟩ := hnext.next
  -- A quote begins a value or a key; no other move is made by a string.
  cases hm with
  | scalar ha =>
    rw [Repair.feed_value (hstance.trans (ha.stance stack))]
    have hseen : ('"' :: r.seen).reverse = seen ++ ['"'] := by simp [h.seen]
    have hkept : Finds ('"' :: r.seen).reverse (.text {}) passed := by
      rw [hseen]
      exact hfinds
    exact .valueText hfinds (h.stay '"' _) ha .plain (hseen ▸ List.prefix_rfl) hkept rfl rfl
  | key ha =>
    rw [Repair.feed_quote_of_key (hstance.trans (ha.stance _))]
    exact .keyText hfinds (h.stay '"' _) ha .plain rfl
  | openArray => cases ht
  | openObject => cases ht
  | colon => cases ht
  | commaMember => cases ht
  | commaItem => cases ht
  | closeArray => cases ht
  | closeObject => cases ht

theorem feed_literal {c : Char} {s : Scan} (h : Stage all v seen passed (s.tokens rest) p r)
    (hstance : r.stance = p.stance) (hfinds : Finds seen .between passed) (hc : endsLiteral c = false)
    (hc' : c ∉ ['{', '[', '"']) (hs : InLiteral s []) (hpart : Finds [c] s []) :
    Tracks all v (seen ++ [c]) rest (r.feed c) := by
  obtain ⟨t, ts, htokens, ht⟩ := hs.exists_token rest
  have hnext := h
  rw [← List.nil_append (s.tokens rest), htokens] at hnext
  obtain ⟨stack, awaiting, p', rfl, hm, -, -⟩ := hnext.next
  obtain ⟨ha, -⟩ := hm.literal ht
  rw [Repair.feed_value (hstance.trans (ha.stance stack)), Repair.isBlank_of_endsLiteral_eq_false hc,
    if_neg Bool.false_ne_true, Repair.begin_literal hc hc']
  refine .literal rfl hfinds hpart hs ?_ (h.stay c _) ha rfl
  intro c' hc'
  obtain rfl := List.mem_singleton.mp hc'
  exact hc

/-- Any character between tokens, or behind a literal that it ends. -/
theorem feed_between {c : Char} (h : Stage all v seen passed (tokens (c :: rest)) p r)
    (hstance : r.stance = p.stance) (hfinds : Finds (seen ++ [c]) (Scan.start c).1 (passed ++ (Scan.start c).2))
    (hclear : endsLiteral c = true ∨ Finds seen .between passed) : Tracks all v (seen ++ [c]) rest (r.feed c) := by
  rw [tokens, Scan.tokens, Scan.feed] at h
  have hstart := Scan.starts_start c
  -- A literal begins with a character that does not end one.
  have hliteral {s : Scan} (hc : endsLiteral c = false) (hc' : c ∉ ['{', '[', '"']) (hs : InLiteral s [])
      (hstart : Scan.start c = (s, [])) : Tracks all v (seen ++ [c]) rest (r.feed c) := by
    rw [hstart] at h
    have hclear : Finds seen .between passed := by
      rcases hclear with hclear | hclear
      · rw [hc] at hclear
        cases hclear
      · exact hclear
    refine h.feed_literal hstance hclear hc hc' hs ?_
    have hpart := Finds.nil.feed c
    rwa [Scan.feed, hstart] at hpart
  generalize hfound : Scan.start c = found at h hfinds hstart hliteral
  obtain ⟨s, out⟩ := found
  -- what the character does to the reading is what the scanner of tokens finds in it
  cases hstart with
  | blank hblank =>
    rw [Repair.feed_blank hstance (Repair.isBlank_of_isBlank hblank)]
    rw [List.append_nil] at hfinds
    exact .between hfinds (h.stay c r.stance) hstance
  | openArray => exact h.feed_openArray hstance hfinds
  | closeArray => exact h.feed_closeArray hstance hfinds
  | openObject => exact h.feed_openObject hstance hfinds
  | closeObject => exact h.feed_closeObject hstance hfinds
  | comma => exact h.feed_comma hstance hfinds
  | colon => exact h.feed_colon hstance hfinds
  | text =>
    rw [List.append_nil] at hfinds
    exact h.feed_quote hstance hfinds
  | @word w c rest' hw =>
    obtain ⟨hc, hc', hs⟩ := Scan.inLiteral_of_letters hw
    exact hliteral hc hc' hs rfl
  | numeral hn =>
    obtain ⟨hc, hc'⟩ := NumeralScan.endsLiteral_of_start? hn
    exact hliteral hc hc' .numeral rfl
  | stray =>
    obtain ⟨stack, awaiting, p', rfl, hm, -, -⟩ := h.next
    cases hm with
    | scalar _ hv => cases hv

/-! ### A character inside a token -/

/-- A string in a document ends well. -/
theorem exists_text {t : TextScan} {cs : List Char} (h : Stage all v seen passed ((Scan.text t).tokens cs) p r) :
    ∃ s ts, (Scan.text t).tokens cs = .text s :: ts := by
  obtain ⟨tok, ts, htokens, htok⟩ := Scan.exists_tokens_of_kind? (s := .text t) rfl cs
  rw [htokens] at h
  obtain ⟨stack, awaiting, p', -, hm, -, -⟩ := h.next
  obtain ⟨s, rfl⟩ := exists_text_of_moves hm htok
  exact ⟨s, ts, htokens⟩

theorem next_of_isValue {s : String} {stack : List Frame} {awaiting : Awaiting}
    (h : Stage all v seen passed (.text s :: ahead) (.reading stack awaiting) r) (ha : awaiting.IsValue) :
    Runs .start (passed ++ [.text s]) (supply (.text s) stack) ∧ Runs (supply (.text s) stack) ahead (.done v) := by
  obtain ⟨stack', awaiting', p', hp, hm, hreached, hleads⟩ := h.next
  cases hp
  obtain rfl := hm.eq_supply ha rfl
  exact ⟨hreached, hleads⟩

theorem next_of_isKey {s : String} {stack : List Frame} {awaiting : Awaiting}
    (h : Stage all v seen passed (.text s :: ahead) (.reading stack awaiting) r) (ha : awaiting.IsKey) :
    ∃ members key fs, stack = .object members key :: fs ∧
      Runs .start (passed ++ [.text s]) (.reading (.object members s :: fs) .colon) ∧
      Runs (.reading (.object members s :: fs) .colon) ahead (.done v) := by
  obtain ⟨stack', awaiting', p', hp, hm, hreached, hleads⟩ := h.next
  cases hp
  obtain ⟨members, key, fs, rfl, rfl⟩ := hm.exists_key ha
  exact ⟨members, key, fs, rfl, hreached, hleads⟩

theorem quiet_of_isKey {s : String} {stack : List Frame} {awaiting : Awaiting}
    (h : Stage all v seen passed (.text s :: ahead) (.reading stack awaiting) r) (ha : awaiting.IsKey) :
    Quiet all passed.length := by
  obtain ⟨members, key, fs, rfl, -, hleads⟩ := h.next_of_isKey ha
  obtain ⟨ts, hts⟩ := Runs.colon hleads
  refine Or.inr (Or.inr ⟨s, h.getElem?_next, ?_⟩)
  rw [h.split_next, hts]
  simp

/-- The character behind a word or numeral, or one more of its own. -/
theorem feed_inLiteral {c : Char} {front part : List Char} {s : Scan} {found : List Token} {stack : List Frame}
    {awaiting : Awaiting} (h : Stage all v (front ++ part) passed (found ++ s.tokens (c :: rest))
      (.reading stack awaiting) r) (hfront : Finds front .between passed) (hpart : Finds part s found)
    (hs : InLiteral s found) (hends : ∀ c ∈ part, endsLiteral c = false) (ha : awaiting.IsValue)
    (hstance : r.stance = .literal part.reverse) : Tracks all v (front ++ part ++ [c]) rest (r.feed c) := by
  cases hc : endsLiteral c with
  | false =>
    have hs' := hs.feed hc h.leads.literalStands
    have hchars : c :: part.reverse = (part ++ [c]).reverse := by simp
    rw [Repair.feed_literal_more hstance hc, hchars]
    rw [Scan.tokens, ← List.append_assoc] at h
    refine .literal (List.append_assoc _ _ _) hfront (hpart.feed c) hs' ?_ (h.stay c _) ha rfl
    intro c' hc'
    rcases List.mem_append.mp hc' with hc' | hc'
    · exact hends c' hc'
    · obtain rfl := List.mem_singleton.mp hc'
      exact hc
  | true =>
    obtain ⟨t, ht, hended⟩ := hs.ends hc h.leads.literalStands
    rw [hended.tokens fun c' hc' => by cases hc'; exact hc] at h
    obtain ⟨stack', awaiting', p', hp, hm, hreached, hleads⟩ := h.next
    cases hp
    obtain ⟨-, u, hu, rfl⟩ := hm.literal ht
    have hcut : Cut (front ++ part) (passed ++ [t]) := cut_of_endsAs hfront hpart hended
    -- The scanner goes on as if it had met the end of the literal before.
    have hstage := h.complete hreached hleads hcut r.stance
    rw [← h.seen] at hstage
    have hliteral : Repair.isLiteral part.reverse.reverse = true := by
      rw [List.reverse_reverse]
      exact Repair.isLiteral_of_tokens (hpart.tokens_eq.trans hended.finish) hu
    rw [Repair.feed_literal hstance hc hliteral]
    have hfinds := (hfront.append hpart).feed c
    obtain ⟨hstart, hfound⟩ := hended.feed c hc
    rw [hstart, List.append_assoc passed, hfound, List.append_cons passed] at hfinds
    exact hstage.feed_between (h.stance_complete u) hfinds (Or.inl hc)

theorem feed_keyText {c : Char} {t : TextScan} {phase : Repair.BodyPhase} {escaped : Bool} {stack : List Frame}
    {awaiting : Awaiting} (h : Stage all v seen passed ((Scan.text t).tokens (c :: rest)) (.reading stack awaiting) r)
    (hfinds : Finds seen (.text t) passed) (ha : awaiting.IsKey) (hfits : TextScan.Fits t.phase phase escaped)
    (hstance : r.stance = .keyText escaped) : Tracks all v (seen ++ [c]) rest (r.feed c) := by
  obtain ⟨s, ts, htext⟩ := h.exists_text
  have hnext := hfinds.feed c
  have hwhole := TextScan.isWholeText_text s
  rcases TextScan.feed_of_tokens htext hwhole with ⟨rfl, hphase, -, hfeed⟩ | ⟨t', hfeed, htext'⟩
  · rw [Scan.tokens] at h
    rw [hfeed] at h hnext
    have hquiet := h.quiet_of_isKey ha
    obtain ⟨members, key, fs, rfl, hreached, hleads⟩ := h.next_of_isKey ha
    rw [hfits.not_escaped hphase] at hstance
    rw [Repair.feed_quote_of_keyText hstance]
    exact .between hnext (h.pass (ne_start_of_isKey ha) hreached hleads rfl hquiet _ _) rfl
  · obtain ⟨hquote, hfits'⟩ := TextScan.fits_feed hfits hfeed htext' hwhole
    rw [Scan.tokens] at h
    rw [TextScan.scan_feed hfeed] at h hnext
    rw [List.append_nil] at hnext
    rw [Repair.feed_keyText hstance hquote]
    exact .keyText hnext (h.stay c _) ha hfits' rfl

theorem feed_valueText {c : Char} {t t' : TextScan} {phase : Repair.BodyPhase} {escaped : Bool}
    {kept : List Char} {stack : List Frame} {awaiting : Awaiting}
    (h : Stage all v seen passed ((Scan.text t).tokens (c :: rest)) (.reading stack awaiting) r)
    (hfinds : Finds seen (.text t) passed) (ha : awaiting.IsValue) (hfits : TextScan.Fits t.phase phase escaped)
    (hkept : kept.reverse <+: seen) (hfinds' : Finds kept.reverse (.text t') passed) (hplain : t'.phase = .plain)
    (hstance : r.stance = .valueText escaped phase kept) : Tracks all v (seen ++ [c]) rest (r.feed c) := by
  obtain ⟨s, ts, htext⟩ := h.exists_text
  have hnext := hfinds.feed c
  have hwhole := TextScan.isWholeText_text s
  rcases TextScan.feed_of_tokens htext hwhole with ⟨rfl, hphase, -, hfeed⟩ | ⟨t₁, hfeed, htext'⟩
  · rw [Scan.tokens] at h
    rw [hfeed] at h hnext
    obtain ⟨hreached, hleads⟩ := h.next_of_isValue ha
    have hseen : (seen ++ ['"']).reverse = '"' :: r.seen := by simp [h.seen]
    have hstage := h.complete hreached hleads (cut_of_between hnext) r.stance
    rw [hseen] at hstage
    rw [hfits.not_escaped hphase] at hstance
    rw [Repair.feed_quote_of_valueText hstance]
    exact .between hnext hstage (h.stance_complete (.text s))
  · obtain ⟨hquote, hfits'⟩ := TextScan.fits_feed hfits hfeed htext' hwhole
    rw [Scan.tokens] at h
    rw [TextScan.scan_feed hfeed] at h hnext
    rw [List.append_nil] at hnext
    rw [Repair.feed_valueText hstance hquote]
    -- A character outside an escape is kept along with all that comes before it.
    by_cases hwhole : phase.feed c = .whole
    · have hseen : (c :: r.seen).reverse = seen ++ [c] := by simp [h.seen]
      rw [if_pos hwhole]
      refine .valueText hnext (h.stay c _) ha hfits' (hseen ▸ List.prefix_rfl) (hseen ▸ hnext)
        (hfits'.whole_iff.mp hwhole) rfl
    · rw [if_neg hwhole]
      exact .valueText hnext (h.stay c _) ha hfits' (hkept.trans (List.prefix_append _ _)) hfinds' hplain rfl

end Stage

/-- The scanner follows the document from character to character. -/
theorem Tracks.feed {c : Char} {rest : List Char} (h : Tracks all v seen (c :: rest) r) :
    Tracks all v (seen ++ [c]) rest (r.feed c) := by
  cases h with
  | between hfinds hstage hstance => exact hstage.feed_between hstance (hfinds.feed c) (Or.inr hfinds)
  | literal hseen hfront hpart hs hends hstage ha hstance =>
    subst hseen
    exact hstage.feed_inLiteral hfront hpart hs hends ha hstance
  | keyText hfinds hstage ha hfits hstance => exact hstage.feed_keyText hfinds ha hfits hstance
  | valueText hfinds hstage ha hfits hkept hfinds' hplain hstance =>
    exact hstage.feed_valueText hfinds ha hfits hkept hfinds' hplain hstance

/-- The scanner follows a document as far as it has been written. -/
theorem Tracks.scan {cs rest : List Char} (h : Runs .start (tokens (cs ++ rest)) (.done v)) :
    Tracks (tokens (cs ++ rest)) v cs rest (Repair.scan cs) := by
  have hrun (more : List Char) {seen : List Char} {r : Repair} {all : List Token}
      (h : Tracks all v seen (more ++ rest) r) : Tracks all v (seen ++ more) rest (more.foldl Repair.feed r) := by
    induction more generalizing seen r with
    | nil =>
      rw [List.append_nil]
      exact h
    | cons c more ih =>
      have hnext := ih h.feed
      rwa [List.append_assoc] at hnext
  exact hrun cs (.between .nil (stage_start h) rfl)

end Stage

end GuidedDecoding.Json
