import GuidedDecoding.Proofs.Json.OffsetScan

/-!
# The two scanners of unfinished documents

The scanner over bytes repairs every document, and as the scanner over characters does
(`repair_between_characters`). This comes from `Follows`: wherever one of its steps begins, the scanner over
characters has passed exactly the characters before the offset and is in the same state.

What one step preserves is `Follows.exists_step`. A step that jumps over a string or a literal answers to as many
steps of the other scanner as there are characters in it. Only with the character behind a literal does that one find
the literal complete; it then goes on as if it had known before (`Repair.feed_literal`).
-/

namespace GuidedDecoding.Json

open Repair (Stance Checkpoint endsLiteral isLiteral)
open Utf8 (bytesOf byteLength charOf slice? IsBoundary)

namespace OffsetScan

variable {cs front rest : List Char} {s s' : OffsetScan} {r : Repair} {c : Char}

/-! ### The scanner over characters -/

def Expect.stance : Expect → Stance
  | .value => .value
  | .key => .key
  | .colon => .colon
  | .commaOrClose => .commaOrClose

/-- An offset marks what the scanner over characters keeps. -/
structure Mark.Of (cs : List Char) (m : Mark) (p : Checkpoint) : Prop where
  kept : p.kept.reverse <+: cs
  position : m.position = byteLength p.kept.reverse
  closers : m.closers = p.closers
  started : m.started = p.started

/-- The scanner over characters has passed `front`, and has the containers, the begin and the mark of `s`. -/
structure Shares (cs : List Char) (s : OffsetScan) (front rest : List Char) (r : Repair) : Prop where
  text : cs = front ++ rest
  seen : r.seen = front.reverse
  closers : r.closers = s.closers
  started : r.started = s.started
  mark : Option.Rel (Mark.Of cs) s.mark r.checkpoint

/-- The scanner over characters is in the same state, and goes on to that behind the text. -/
structure Follows (cs : List Char) (s : OffsetScan) (front rest : List Char) (r : Repair) : Prop
    extends Shares cs s front rest r where
  position : s.position = byteLength front
  stance : r.stance = s.expect.stance
  scan : rest.foldl Repair.feed r = Repair.scan cs

inductive Ending.Closes (cs : List Char) : Ending → Prop
  | marked {mark : Option Mark} :
      Option.Rel (Mark.Of cs) mark (Repair.scan cs).checkpoint →
      (∀ escaped phase kept, (Repair.scan cs).stance ≠ .valueText escaped phase kept) → Closes cs (.marked mark)
  | openText {escaped : Bool} {phase : Repair.BodyPhase} {kept : List Char} :
      (Repair.scan cs).stance = .valueText escaped phase kept → kept.reverse <+: cs →
      Closes cs (.openText (byteLength kept.reverse) (Repair.scan cs).closers)

def Next.Agrees (cs : List Char) : Next → Prop
  | .more s => ∃ front rest r, Follows cs s front rest r
  | .done e => e.Closes cs

/-- At the start of a text both scanners stand before it. -/
theorem follows_start (cs : List Char) : Follows cs {} [] cs {} where
  text := rfl
  seen := rfl
  closers := rfl
  started := rfl
  mark := .none
  position := rfl
  stance := rfl
  scan := rfl

/-- A scanner that has halted keeps its mark, whatever follows. -/
theorem foldl_halted (rest : List Char) (h : r.stance = .halted) :
    (rest.foldl Repair.feed r).stance = .halted ∧ (rest.foldl Repair.feed r).checkpoint = r.checkpoint := by
  induction rest generalizing r with
  | nil => exact ⟨h, rfl⟩
  | cons c rest ih =>
    rw [List.foldl_cons, Repair.feed_halted h]
    exact ih h

/-- The scanner over characters is behind the text with this mark, and not in a string value. -/
theorem agrees_of_scan {mark : Option Mark} (hscan : r = Repair.scan cs)
    (hmark : Option.Rel (Mark.Of cs) mark r.checkpoint)
    (hr : ∀ escaped phase kept, r.stance ≠ .valueText escaped phase kept) :
    (Next.done (.marked mark)).Agrees cs := by
  subst hscan
  exact .marked hmark hr

/-- The scanner over characters has halted with this mark. -/
theorem agrees_marked {mark : Option Mark} (hmark : Option.Rel (Mark.Of cs) mark r.checkpoint)
    (hr : r.stance = .halted) (hscan : rest.foldl Repair.feed r = Repair.scan cs) :
    (Next.done (.marked mark)).Agrees cs := by
  obtain ⟨hhalted, hcheckpoint⟩ := foldl_halted rest hr
  refine agrees_of_scan hscan ?_ ?_
  · rwa [hcheckpoint]
  · rw [hhalted]
    exact nofun

namespace Shares

/-- A scanner that halts is followed by one that halts. -/
theorem halt (h : Shares cs s front rest r) (hr : r.stance = .halted)
    (hscan : rest.foldl Repair.feed r = Repair.scan cs) : s.halt.Agrees cs :=
  agrees_marked h.mark hr hscan

/-- A mark behind what has been passed. -/
theorem mark_of (h : Shares cs s front rest r) {closers : List Char} {started : Bool} :
    Mark.Of cs ⟨byteLength front, closers, started⟩ ⟨r.seen, closers, started⟩ where
  kept := by
    rw [h.seen, List.reverse_reverse, h.text]
    exact List.prefix_append ..
  position := by rw [h.seen, List.reverse_reverse]
  closers := rfl
  started := rfl

theorem complete (h : Shares cs s front rest r) (hscan : rest.foldl Repair.feed r.complete = Repair.scan cs) :
    (s.complete (byteLength front)).Agrees cs := by
  -- the mark is the same on both sides, whether or not a container is open
  have hmark : Option.Rel (Mark.Of cs) (some ⟨byteLength front, s.closers, true⟩) r.complete.checkpoint := by
    rw [← h.closers]
    exact .some h.mark_of
  have hstance : r.complete.stance = if r.closers.isEmpty then .halted else .commaOrClose := rfl
  rw [OffsetScan.complete]
  split
  · next hempty =>
    refine agrees_marked hmark ?_ hscan
    rw [hstance, h.closers, if_pos hempty]
  · next hopen =>
    refine ⟨front, rest, r.complete, ?_⟩
    exact {
      text := h.text
      seen := h.seen
      closers := h.closers
      started := rfl
      mark := hmark
      position := rfl
      stance := by rw [hstance, h.closers, if_neg hopen]; rfl
      scan := hscan }

theorem leave (h : Shares cs s front rest r) (hs : s.position + 1 = byteLength front)
    (hscan : rest.foldl Repair.feed r.leave = Repair.scan cs) : s.leave.Agrees cs := by
  -- without a container around it both scanners are at the end
  have hclosed (hr : r.leave = Repair.mark { r with closers := [], started := true, stance := .halted }) :
      (Next.done (.marked (some ⟨s.position + 1, [], true⟩))).Agrees cs := by
    rw [hr] at hscan
    rw [hs]
    exact agrees_marked (.some h.mark_of) rfl hscan
  unfold OffsetScan.leave
  split
  · next hnil =>
    apply hclosed
    simp only [Repair.leave, h.closers, hnil]
  · next closer hsingle =>
    apply hclosed
    simp only [Repair.leave, h.closers, hsingle]
  · next closer closers hopen hclosers =>
    cases closers with
    | nil => exact (hopen rfl).elim
    | cons closer' closers =>
      refine ⟨front, rest, r.leave, ?_⟩
      have hr : r.leave =
          Repair.mark { r with closers := closer' :: closers, stance := .commaOrClose } := by
        simp only [Repair.leave, h.closers, hclosers]
      rw [hr] at hscan ⊢
      exact {
        text := h.text
        seen := h.seen
        closers := rfl
        started := h.started
        mark := by
          rw [hs, ← h.started]
          exact .some h.mark_of
        position := hs
        stance := rfl
        scan := hscan }

theorem enter (h : Shares cs s front rest r) (hs : s.position + 1 = byteLength front) (closer : Char)
    (expect : Expect) (hscan : rest.foldl Repair.feed (r.enter closer expect.stance) = Repair.scan cs) :
    (s.enter closer expect).Agrees cs := by
  refine ⟨front, rest, r.enter closer expect.stance, ?_⟩
  exact {
    text := h.text
    seen := h.seen
    closers := by
      show closer :: r.closers = closer :: s.closers
      rw [h.closers]
    started := by
      show (r.started || !r.closers.isEmpty) = (s.started || !s.closers.isEmpty)
      rw [h.started, h.closers]
    mark := by
      show Option.Rel (Mark.Of cs) (some ⟨s.position + 1, closer :: s.closers, s.started || !s.closers.isEmpty⟩)
        (some ⟨r.seen, closer :: r.closers, r.started || !r.closers.isEmpty⟩)
      rw [hs, ← h.started, ← h.closers]
      exact .some h.mark_of
    position := hs
    stance := rfl
    scan := hscan }

/-- Characters that change at most what the scanner over characters is at. -/
theorem pass (part : List Char) (h : Shares cs s front (part ++ rest) r) (stance : Stance) :
    Shares cs s (front ++ part) rest (r.past part stance) where
  text := by simp [h.text]
  seen := by simp [Repair.past, h.seen]
  closers := h.closers
  started := h.started
  mark := h.mark

end Shares

/-! ### One step -/

namespace Follows

theorem position_succ (h : Follows cs s front (c :: rest) r) (hc : c.toNat < 0x80) :
    s.position + 1 = byteLength (front ++ [c]) := by
  rw [Utf8.byteLength_concat, Utf8.utf8Size_of_ascii hc, h.position]

/-- Behind a character that only changes what may come next. -/
theorem agrees_pass (h : Follows cs s front (c :: rest) r) (hc : c.toNat < 0x80) {expect : Expect}
    (hfeed : r.feed c = r.past [c] expect.stance) :
    (Next.more { s with position := s.position + 1, expect := expect }).Agrees cs := by
  refine ⟨front ++ [c], rest, r.feed c, ?_⟩
  have hscan := h.scan
  rw [List.foldl_cons] at hscan
  rw [hfeed] at hscan ⊢
  exact { h.toShares.pass [c] expect.stance with
    position := h.position_succ hc
    stance := rfl
    scan := hscan }

theorem agrees_halt (h : Follows cs s front (c :: rest) r)
    (hfeed : r.feed c = r.past [c] .halted) : s.halt.Agrees cs := by
  have hscan := h.scan
  rw [List.foldl_cons, hfeed] at hscan
  exact (h.toShares.pass [c] .halted).halt rfl hscan

theorem agrees_leave (h : Follows cs s front (c :: rest) r) (hc : c.toNat < 0x80)
    (hfeed : r.feed c = (r.past [c] r.stance).leave) : s.leave.Agrees cs := by
  have hscan := h.scan
  rw [List.foldl_cons, hfeed] at hscan
  exact (h.toShares.pass [c] r.stance).leave (h.position_succ hc) hscan

theorem agrees_enter (h : Follows cs s front (c :: rest) r) (hc : c.toNat < 0x80) {closer : Char} {expect : Expect}
    (hfeed : r.feed c = (r.past [c] r.stance).enter closer expect.stance) :
    (s.enter closer expect).Agrees cs := by
  have hscan := h.scan
  rw [List.foldl_cons, hfeed] at hscan
  exact (h.toShares.pass [c] r.stance).enter (h.position_succ hc) closer expect hscan

theorem exists_text (h : Follows cs s front ('"' :: rest) r)
    (hfeed : r.feed '"' = r.past ['"'] (.valueText false .whole ('"' :: r.seen))) :
    ∃ next, (match stringEnd? (bytesOf cs) (s.position + 1) with
      | some e => some (s.complete e)
      | none => some (.done (.openText (bodyEnd (bytesOf cs) (s.position + 1)) s.closers))) = some next ∧
      next.Agrees cs := by
  have hscan := h.scan
  rw [List.foldl_cons, hfeed] at hscan
  have hbegun := h.toShares.pass ['"'] (.valueText false .whole ('"' :: r.seen))
  have hbody : BodyAt cs (front ++ ['"']) .whole ('"' :: r.seen) (byteLength (front ++ ['"'])) := by
    rw [h.seen]
    simpa using (BodyAt.whole : BodyAt cs (front ++ ['"']) .whole _ _)
  rw [h.position_succ (by decide)]
  rcases StringAt.plain.cases hbegun.text with ⟨escaped, hpass, hnone⟩ | ⟨inside, back, rfl, hpass, hsome⟩
  · -- The string is open to the end of the text.
    rw [hnone]
    refine ⟨_, rfl, ?_⟩
    have htext : front ++ ['"'] ++ rest = cs := hbegun.text.symm
    have hall : cs = front ++ ['"'] ++ (rest ++ []) := by simp [← htext]
    obtain ⟨phase, kept, i, hfold, hat, hi⟩ := Repair.foldl_valueText hpass rfl hbegun.seen hall hbody
    rw [htext] at hat
    obtain ⟨hfront, hend⟩ := hat.finish
    have hbehind := hscan.symm.trans hfold
    have hclosers : (Repair.scan cs).closers = s.closers := by
      rw [hbehind]
      exact h.closers
    rw [hi, hend, ← hclosers]
    exact .openText (congrArg Repair.stance hbehind) hfront
  · rw [hsome]
    refine ⟨_, rfl, ?_⟩
    obtain ⟨phase, kept, i, hfold, -, -⟩ :=
      Repair.foldl_valueText hpass rfl hbegun.seen hbegun.text hbody
    have hended := (hbegun.pass inside (.valueText false phase kept)).pass ['"'] (.valueText false phase kept)
    rw [List.foldl_append, hfold, List.foldl_cons, Repair.feed_quote_of_valueText rfl] at hscan
    exact hended.complete hscan

theorem exists_key (h : Follows cs s front ('"' :: rest) r) (hr : r.stance = .key) :
    ∃ next, (match stringEnd? (bytesOf cs) (s.position + 1) with
      | some e => some (.more { s with position := e, expect := .colon })
      | none => some s.halt) = some next ∧ next.Agrees cs := by
  have hscan := h.scan
  have hfeed : r.feed '"' = r.past ['"'] (.keyText false) := Repair.feed_quote_of_key hr
  rw [List.foldl_cons, hfeed] at hscan
  have hbegun := h.toShares.pass ['"'] (.keyText false)
  rw [h.position_succ (by decide)]
  rcases StringAt.plain.cases hbegun.text with ⟨escaped, hpass, hnone⟩ | ⟨inside, back, rfl, hpass, hsome⟩
  · -- An open key is left out.
    rw [hnone]
    refine ⟨_, rfl, ?_⟩
    rw [Repair.foldl_keyText hpass rfl] at hscan
    exact agrees_of_scan hscan hbegun.mark nofun
  · rw [hsome]
    refine ⟨_, rfl, ?_⟩
    have hended := (hbegun.pass inside (.keyText false)).pass ['"'] .colon
    rw [List.foldl_append, Repair.foldl_keyText hpass rfl, List.foldl_cons, Repair.feed_quote_of_keyText rfl] at hscan
    exact ⟨_, back, _, { hended with
      position := rfl
      stance := rfl
      scan := hscan }⟩

/-- The text around a literal can be cut. -/
theorem literal_eq (word : List Char) (h : Follows cs s front (word ++ rest) r)
    (hword : ∀ c ∈ word, endsLiteral c = false) (hrest : ∀ c ∈ rest.head?, endsLiteral c = true) :
    s.literal cs = some (if rest = [] then s.halt
      else if isLiteral word then s.complete (byteLength (front ++ word)) else s.halt) := by
  have hend : literalEnd (bytesOf cs) s.position = byteLength (front ++ word) := by
    rw [h.text, h.position]
    exact literalEnd_append hword hrest
  have htext : cs = front ++ word ++ rest := by simp [h.text]
  have hlength : (bytesOf cs).length = byteLength (front ++ word) + byteLength rest := by
    rw [Utf8.length_bytesOf, htext, Utf8.byteLength_append]
  have hslice : slice? cs s.position (byteLength (front ++ word)) = some word :=
    Utf8.slice?_eq_some_iff.mpr ⟨front, rest, htext, h.position.symm, rfl⟩
  rw [OffsetScan.literal, hend, hlength, hslice]
  by_cases hnil : rest = []
  · simp [hnil, byteLength]
  · have hpos : byteLength rest ≠ 0 := mt Utf8.byteLength_eq_zero_iff.mp hnil
    simp [hnil, hpos]

/-- A character that begins no value. -/
theorem exists_literal_of_ends (h : Follows cs s front (c :: rest) r) (hc : endsLiteral c = true)
    (hfeed : r.feed c = r.past [c] .halted) :
    ∃ next, s.literal cs = some next ∧ next.Agrees cs := by
  refine ⟨s.halt, ?_, h.agrees_halt hfeed⟩
  have hliteral := literal_eq [] h nofun (by simpa using hc)
  rw [hliteral]
  rfl

theorem exists_literal (h : Follows cs s front (c :: rest) r) (hc : endsLiteral c = false)
    (hfeed : r.feed c = r.past [c] (.literal [c])) :
    ∃ next, s.literal cs = some next ∧ next.Agrees cs := by
  -- The scanner over characters is in the literal up to the character in front of `back`.
  obtain ⟨part, back, rfl, hpart, hback⟩ := Repair.exists_word_append rest
  have hword : ∀ d ∈ c :: part, endsLiteral d = false := List.forall_mem_cons.mpr ⟨hc, hpart⟩
  have hscan := h.scan
  rw [List.foldl_cons, hfeed, List.foldl_append, Repair.foldl_literal hpart rfl, Repair.past_past] at hscan
  have hshares : Shares cs s (front ++ (c :: part)) back (r.past ([c] ++ part) (.literal (part.reverse ++ [c]))) :=
    h.toShares.pass (c :: part) (.literal (part.reverse ++ [c]))
  have hchars : (part.reverse ++ [c]).reverse = c :: part := by simp
  refine ⟨_, literal_eq (c :: part) h hword hback, ?_⟩
  cases back with
  | nil =>
    -- The literal may go on behind the text.
    rw [if_pos rfl]
    exact agrees_of_scan hscan hshares.mark nofun
  | cons d back =>
    have hd := hback d rfl
    rw [if_neg (List.cons_ne_nil d back)]
    cases hliteral : isLiteral (c :: part) with
    | true =>
      rw [if_pos rfl]
      refine hshares.complete ?_
      rw [List.foldl_cons, Repair.feed_literal rfl hd (hchars ▸ hliteral)] at hscan
      exact hscan
    | false =>
      rw [if_neg Bool.false_ne_true]
      rw [List.foldl_cons, Repair.feed_literal_halted rfl hd (hchars ▸ hliteral)] at hscan
      exact (hshares.pass [d] .halted).halt rfl hscan

theorem exists_value (h : Follows cs s front (c :: rest) r) (hs : s.expect = .value)
    (hblank : Repair.isBlank c = false) : ∃ next, s.look cs c = some next ∧ next.Agrees cs := by
  have hstance : r.stance = .value := by
    rw [h.stance, hs]
    rfl
  have hbegin : r.feed c = Repair.begin { r with seen := c :: r.seen } c := by
    rw [Repair.feed_value hstance, hblank]
    rfl
  simp only [look, hblank, Bool.false_eq_true, if_false, hs]
  -- the branches of `begin`, one for each kind of first character
  split_ifs with hbrace hbracket hclose hquote
  · subst hbrace
    exact ⟨_, rfl, h.agrees_enter (by decide) hbegin⟩
  · subst hbracket
    exact ⟨_, rfl, h.agrees_enter (by decide) hbegin⟩
  · obtain ⟨rfl, hcloser⟩ := hclose
    refine ⟨_, rfl, h.agrees_leave (by decide) ?_⟩
    rw [hbegin]
    simp [Repair.begin, Repair.past_singleton, h.closers, hcloser]
  · subst hquote
    exact h.exists_text hbegin
  · cases hends : endsLiteral c with
    | true =>
      refine h.exists_literal_of_ends hends ?_
      rw [hbegin]
      rw [← h.closers] at hclose
      simp only [Repair.begin, Repair.past_singleton, if_neg hbrace, if_neg hbracket, if_neg hclose, if_neg hquote,
        hends, if_true]
    | false =>
      refine h.exists_literal hends ?_
      rw [hbegin]
      exact Repair.begin_literal hends (by simp [hbrace, hbracket, hquote])

theorem exists_key_or_close (h : Follows cs s front (c :: rest) r) (hs : s.expect = .key)
    (hblank : Repair.isBlank c = false) : ∃ next, s.look cs c = some next ∧ next.Agrees cs := by
  have hstance : r.stance = .key := by
    rw [h.stance, hs]
    rfl
  have hclosers := h.closers
  simp only [look, hblank, Bool.false_eq_true, if_false, hs]
  split_ifs with hquote hclose
  · subst hquote
    exact h.exists_key hstance
  · obtain ⟨rfl, hcloser⟩ := hclose
    refine ⟨_, rfl, h.agrees_leave (by decide) ?_⟩
    simp [Repair.feed, Repair.past_singleton, hstance, Repair.isBlank, hclosers, hcloser]
  · refine ⟨_, rfl, h.agrees_halt ?_⟩
    rw [← hclosers] at hclose
    simp only [Repair.feed, Repair.past_singleton, hstance, hblank, Bool.false_eq_true, if_false, if_neg hquote,
      if_neg hclose]

theorem exists_colon (h : Follows cs s front (c :: rest) r) (hs : s.expect = .colon)
    (hblank : Repair.isBlank c = false) : ∃ next, s.look cs c = some next ∧ next.Agrees cs := by
  have hstance : r.stance = .colon := by
    rw [h.stance, hs]
    rfl
  simp only [look, hblank, Bool.false_eq_true, if_false, hs]
  split_ifs with hcolon
  · subst hcolon
    exact ⟨_, rfl, h.agrees_pass (by decide) (Repair.feed_colon hstance)⟩
  · refine ⟨_, rfl, h.agrees_halt ?_⟩
    simp only [Repair.feed, Repair.past_singleton, hstance, hblank, Bool.false_eq_true, if_false, if_neg hcolon]

/-- A character behind a value inside a container. -/
theorem exists_separator (h : Follows cs s front (c :: rest) r) (hs : s.expect = .commaOrClose)
    (hblank : Repair.isBlank c = false) : ∃ next, s.look cs c = some next ∧ next.Agrees cs := by
  have hstance : r.stance = .commaOrClose := by
    rw [h.stance, hs]
    rfl
  have hfeed : r.feed c = Repair.separate { r with seen := c :: r.seen } c := Repair.feed_commaOrClose hstance
  have hclosers := h.closers
  simp only [look, hblank, Bool.false_eq_true, if_false, hs]
  -- behind a comma the innermost container says what comes; all else must close it, or it halts the scanner
  split_ifs with hcomma hobject hclose
  · subst hcomma
    refine ⟨_, rfl, h.agrees_pass (by decide) ?_⟩
    rw [hfeed]
    simp [Repair.separate, Repair.past_singleton, Repair.isBlank, hclosers, hobject, Expect.stance]
  · subst hcomma
    refine ⟨_, rfl, h.agrees_pass (by decide) ?_⟩
    rw [hfeed]
    simp [Repair.separate, Repair.past_singleton, Repair.isBlank, hclosers, hobject, Expect.stance]
  · refine ⟨_, rfl, h.agrees_leave ?_ ?_⟩
    · rcases hclose.1 with rfl | rfl <;> decide
    · rw [← hclosers] at hclose
      simp only [hfeed, Repair.separate, Repair.past_singleton, hblank, Bool.false_eq_true, if_false, if_neg hcomma,
        if_pos hclose]
  · refine ⟨_, rfl, h.agrees_halt ?_⟩
    rw [← hclosers] at hclose
    simp only [hfeed, Repair.separate, Repair.past_singleton, hblank, Bool.false_eq_true, if_false, if_neg hcomma,
      if_neg hclose]

/-- The text can be cut around what stands at the offset as around a literal. -/
theorem isBoundary_literalEnd (h : Follows cs s front rest r) :
    IsBoundary cs (literalEnd (bytesOf cs) s.position) := by
  obtain ⟨word, back, rfl, hword, hback⟩ := Repair.exists_word_append rest
  rw [h.position, h.text, literalEnd_append hword hback]
  exact ⟨front ++ word, back, by simp, rfl⟩

end Follows

/-- A character outside the ASCII range is part of a literal or fits nowhere. -/
theorem look_of_high (hc : 0x80 ≤ c.toNat) :
    s.look cs c = if s.expect = .value then s.literal cs else some s.halt := by
  have hne {a : Char} (ha : a.toNat < 0x80) : c ≠ a := Utf8.ne_of_high hc ha
  have hblank : Repair.isBlank c = false := by
    simp [Repair.isBlank, hne]
  cases hexpect : s.expect <;> simp [look, hblank, hexpect, hne]

/-- The first byte of a character is as good as the character. -/
theorem look_of_tells {b : UInt8} (h : Utf8.Tells b c) : s.look cs (charOf b) = s.look cs c := by
  rcases h with h | ⟨hb, hc⟩
  · rw [h]
  · rw [look_of_high hb, look_of_high hc]

/-- At the end of the text nothing is open but containers. -/
theorem Follows.agrees_halt_of_nil (h : Follows cs s front [] r) : s.halt.Agrees cs := by
  have hscan : r = Repair.scan cs := h.scan
  refine agrees_of_scan hscan h.mark ?_
  rw [h.stance]
  cases s.expect <;> exact nofun

/-- No step cuts the text inside a character, and each one leads to where the scanner over characters is. -/
theorem Follows.exists_step (h : Follows cs s front rest r) : ∃ next, s.step cs = some next ∧ next.Agrees cs := by
  cases rest with
  | nil =>
    refine ⟨s.halt, ?_, h.agrees_halt_of_nil⟩
    have hnone : (bytesOf cs)[s.position]? = none := by
      rw [List.getElem?_eq_none_iff, Utf8.length_bytesOf, h.position, h.text, List.append_nil]
    rw [step, hnone]
  | cons c rest =>
    obtain ⟨b, hget, hb⟩ := Utf8.exists_getElem? front c rest
    rw [← h.text, ← h.position] at hget
    have hstep : s.step cs = s.look cs c := by
      rw [step, hget]
      exact look_of_tells hb
    rw [hstep]
    -- A blank is passed wherever the scanner is, and what else a character does depends on what may come
    -- next.
    cases hblank : Repair.isBlank c with
    | true =>
      have hascii : c.toNat < 0x80 := Repair.toNat_of_endsLiteral (by simp [endsLiteral, hblank])
      have hfeed : r.feed c = r.past [c] s.expect.stance := by
        have hstance := h.stance
        cases hexpect : s.expect <;>
        · rw [hexpect] at hstance
          simp [Repair.feed, Repair.separate, Repair.past_singleton, hstance, Expect.stance, hblank]
      refine ⟨_, ?_, h.agrees_pass hascii hfeed⟩
      rw [look, if_pos hblank]
    | false =>
      cases hexpect : s.expect with
      | value => exact h.exists_value hexpect hblank
      | key => exact h.exists_key_or_close hexpect hblank
      | colon => exact h.exists_colon hexpect hblank
      | commaOrClose => exact h.exists_separator hexpect hblank

theorem Follows.agrees_of_step {next : Next} (h : Follows cs s front rest r) (hstep : s.step cs = some next) :
    next.Agrees cs := by
  obtain ⟨next', hnext, hagrees⟩ := h.exists_step
  rw [hstep] at hnext
  cases hnext
  exact hagrees

/-! ### All steps -/

/-- Each state that is visited is followed. -/
theorem Visits.exists_follows (h : Visits cs s) : ∃ front rest r, Follows cs s front rest r := by
  induction h with
  | start => exact ⟨[], cs, {}, follows_start cs⟩
  | step _ hstep ih =>
    obtain ⟨front, rest, r, hfollows⟩ := ih
    exact hfollows.agrees_of_step hstep

/-- Outside strings the text is closed at the last checkpoint. -/
theorem repaired_of_ne (h : ∀ escaped phase kept, r.stance ≠ .valueText escaped phase kept) :
    r.repaired =
      match r.checkpoint with
      | some p => if p.started then some ⟨p.kept.reverse, p.closers⟩ else none
      | none => none := by
  unfold Repair.repaired
  split
  · next hstance => exact absurd hstance (h _ _ _)
  · rfl

/-- So the text that is cut is the repaired one, and it could be cut there. -/
theorem Ending.Closes.repaired_eq {e : Ending} (h : e.Closes cs) :
    e.repaired cs = some (Repair.scan cs).repaired := by
  cases h with
  | @marked mark hmark hstance =>
    rw [repaired_of_ne hstance]
    generalize (Repair.scan cs).checkpoint = checkpoint at hmark
    cases hmark with
    | none => rfl
    | @some m p hm =>
      rw [Ending.repaired, hm.started, hm.position, hm.closers, Utf8.slice?_of_prefix hm.kept]
      show (if p.started then _ else _) = some (if p.started then _ else _)
      cases p.started <;> rfl
  | openText hstance hfront =>
    rw [Ending.repaired, Utf8.slice?_of_prefix hfront, Repair.repaired, hstance]
    rfl

/-- From where the scanner over characters is the document is repaired as that one repairs it. -/
theorem Follows.run_eq (h : Follows cs s front rest r) : run cs s = some (Repair.scan cs).repaired := by
  induction s using run.induct cs generalizing front rest r with
  | case1 s hstep =>
    obtain ⟨next, hnext, -⟩ := h.exists_step
    rw [hstep] at hnext
    cases hnext
  | case2 s s' hstep ih =>
    obtain ⟨front', rest', r', hfollows⟩ := h.agrees_of_step hstep
    rw [run_of_more hstep]
    exact ih hfollows
  | case3 s e hstep =>
    rw [run_of_done hstep]
    exact (h.agrees_of_step hstep).repaired_eq

/-- A step that is not the last one moves on within the text; the last one notes boundaries only. -/
def Next.Bounded (cs : List Char) (position : Nat) : Next → Prop
  | .more s => position < s.position ∧ s.position ≤ byteLength cs
  | .done (.marked mark) => ∀ m ∈ mark, IsBoundary cs m.position
  | .done (.openText cut _) => IsBoundary cs cut

theorem isBoundary_of_mark {mark : Option Mark} {checkpoint : Option Checkpoint}
    (h : Option.Rel (Mark.Of cs) mark checkpoint) : ∀ m ∈ mark, IsBoundary cs m.position := by
  intro m hm
  cases h with
  | none => cases hm
  | some hof =>
    cases hm
    rw [hof.position]
    exact Utf8.isBoundary_of_prefix hof.kept

/-- The place of the scanner is a boundary. -/
theorem Follows.isBoundary (h : Follows cs s front rest r) : IsBoundary cs s.position :=
  ⟨front, rest, h.text, h.position.symm⟩

/-- So no step leaves the text, and a mark is a boundary. -/
theorem Next.Agrees.bounded {next : Next} (h : next.Agrees cs) (hstep : s.step cs = some next) :
    next.Bounded cs s.position := by
  cases next with
  | more s' =>
    obtain ⟨front, rest, r, hfollows⟩ := h
    exact ⟨(position_lt_of_step hstep).1, hfollows.isBoundary.le⟩
  | done e =>
    cases h with
    | marked hmark => exact isBoundary_of_mark hmark
    | openText _ hfront => exact Utf8.isBoundary_of_prefix hfront

/-- What can be read of a text of which only the bytes are looked at; nothing if the text is cut where it cannot be
cut. -/
def repair (text : String) : Option (Option Repaired) := run text.toList {}

/-- Every text can be scanned by its bytes, with the same result as by its characters. Each step but the last moves on
within the text, and all offsets at which the text may be cut are between two characters. -/
theorem repair_between_characters (text : String) :
    OffsetScan.repair text = some (Json.repair text) ∧
      ∀ s, Visits text.toList s →
        IsBoundary text.toList s.position ∧ IsBoundary text.toList (literalEnd (Utf8.encode text) s.position) ∧
          (∀ m ∈ s.mark, IsBoundary text.toList m.position) ∧
          ∃ next, s.step text.toList = some next ∧ next.Bounded text.toList s.position := by
  refine ⟨(follows_start text.toList).run_eq, ?_⟩
  intro s hs
  obtain ⟨front, rest, r, h⟩ := hs.exists_follows
  obtain ⟨next, hnext, hagrees⟩ := h.exists_step
  exact ⟨h.isBoundary, h.isBoundary_literalEnd, isBoundary_of_mark h.mark, next, hnext, hagrees.bounded hnext⟩

/-- A backslash before a character of two bytes, and an escape that is cut off. -/
theorem repair_between_characters_escaped :
    Visits "[\"\\é\\u0".toList ⟨1, [']'], .value, false, some ⟨1, [']'], false⟩⟩ ∧
      OffsetScan.repair "[\"\\é\\u0" = some (some ⟨['[', '"', '\\', 'é'], ['"', ']']⟩) ∧
      ∃ next,
        OffsetScan.step "[\"\\é\\u0".toList ⟨1, [']'], .value, false, some ⟨1, [']'], false⟩⟩ = some next ∧
          next.Bounded "[\"\\é\\u0".toList 1 := by
  have hvisits : Visits "[\"\\é\\u0".toList ⟨1, [']'], .value, false, some ⟨1, [']'], false⟩⟩ :=
    .step .start rfl
  have h := repair_between_characters "[\"\\é\\u0"
  exact ⟨hvisits, h.1.trans (by decide), (h.2 _ hvisits).2.2.2⟩

end OffsetScan

end GuidedDecoding.Json
