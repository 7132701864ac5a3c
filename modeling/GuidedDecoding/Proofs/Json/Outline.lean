import GuidedDecoding.Proofs.Json.Readable

/-!
# What a text looks like from afar

An `Outline` of a text shows its strings, how deep its brackets nest, and whether it is untidy: whether outside of
strings there is a form feed, or a comma right in front of a closing bracket. It is drawn without reading the
text, so there is one of every text.

A document that can be read is never untidy (`not_untidy_of_runs`). The outline and the scanner of tokens agree on
where its strings are, and on whether a comma precedes (`Draws`).
-/

namespace GuidedDecoding.Json

open Progress
open Repair (endsLiteral)
open Scan (Finds Starts)

structure Outline where
  /-- The strings that have ended, without their quotes, the last one first. -/
  strings : List (List Char) := []
  /-- The string that is open, last character first, and whether a backslash precedes. -/
  open? : Option (List Char × Bool) := none
  /-- How many brackets are open. -/
  depth : Nat := 0
  /-- How many have been open at once. -/
  deepest : Nat := 0
  /-- Whether a comma precedes, but for blanks. -/
  behindComma : Bool := false
  /-- Whether outside of strings there has been a form feed, or a closing bracket behind a comma. -/
  untidy : Bool := false
  deriving DecidableEq, Repr

namespace Outline

def feed (o : Outline) (c : Char) : Outline :=
  match o.open? with
  | some (body, escaped) =>
    if c = '"' ∧ escaped = false then { o with strings := body.reverse :: o.strings, open? := none }
    else { o with open? := some (c :: body, !escaped && c = '\\') }
  | none =>
    if c = '"' then { o with open? := some ([], false), behindComma := false }
    else if c = '[' ∨ c = '{' then
      { o with depth := o.depth + 1, deepest := max o.deepest (o.depth + 1), behindComma := false }
    else if c = ']' ∨ c = '}' then
      { o with depth := o.depth - 1, behindComma := false, untidy := o.untidy || o.behindComma }
    else if c = '\x0C' then { o with untidy := true }
    else { o with behindComma := c = ',' || (isBlank c && o.behindComma) }

end Outline

def outline (cs : List Char) : Outline := cs.foldl Outline.feed {}

/-- The characters can stand between the quotes of a JSON string. -/
def IsText (body : List Char) : Prop := ∃ s, parse (String.ofList ('"' :: body ++ ['"'])) = .ok (.text s)

theorem outline_append (a b : List Char) : outline (a ++ b) = b.foldl Outline.feed (outline a) := List.foldl_append

theorem outline_concat (cs : List Char) (c : Char) : outline (cs ++ [c]) = (outline cs).feed c := outline_append cs [c]

namespace Outline

variable {o : Outline} {c : Char} {body : List Char} {escaped : Bool}

/-- A character outside of strings that is no quote, bracket, comma or form feed. -/
def isPlain (c : Char) : Bool := c ∉ ['"', '[', '{', ']', '}', ',', '\x0C']

/-- A plain character does no more than move away from a comma, if it is not blank. -/
theorem feed_plain (h : o.open? = none) (hc : isPlain c = true) :
    o.feed c = { o with behindComma := isBlank c && o.behindComma } := by
  simp only [isPlain, List.mem_cons, List.not_mem_nil, or_false, not_or, decide_eq_true_eq] at hc
  simp [feed, h, hc]

/-- An opening bracket nests deeper. -/
theorem feed_open (h : o.open? = none) (hc : c = '[' ∨ c = '{') :
    o.feed c = { o with depth := o.depth + 1, deepest := max o.deepest (o.depth + 1), behindComma := false } := by
  rcases hc with rfl | rfl <;> simp [feed, h]

/-- A closing bracket right behind a comma is untidy. -/
theorem feed_close (h : o.open? = none) (hc : c = ']' ∨ c = '}') :
    o.feed c = { o with depth := o.depth - 1, behindComma := false, untidy := o.untidy || o.behindComma } := by
  rcases hc with rfl | rfl <;> simp [feed, h]

/-- A comma shows until something else than a blank follows it. -/
theorem feed_comma (h : o.open? = none) : o.feed ',' = { o with behindComma := true } := by
  simp [feed, h]

theorem feed_quote (h : o.open? = none) : o.feed '"' = { o with open? := some ([], false), behindComma := false } := by
  simp [feed, h]

theorem feed_inside (h : o.open? = some (body, escaped)) (hquote : ¬(c = '"' ∧ escaped = false)) :
    o.feed c = { o with open? := some (c :: body, !escaped && c = '\\') } := by
  simp only [feed, h, if_neg hquote]

theorem feed_end (h : o.open? = some (body, false)) :
    o.feed '"' = { o with strings := body.reverse :: o.strings, open? := none } := by
  simp [feed, h]

theorem foldl_feed_plain {part : List Char} (h : o.open? = none)
    (hpart : ∀ c ∈ part, isPlain c = true ∧ isBlank c = false)
    (hne : part ≠ []) : part.foldl feed o = { o with behindComma := false } := by
  induction part generalizing o with
  | nil => exact absurd rfl hne
  | cons c part ih =>
    obtain ⟨hplain, hblank⟩ := hpart c List.mem_cons_self
    rw [List.foldl_cons, feed_plain h hplain, hblank]
    cases part with
    | nil => rfl
    | cons c' part =>
      rw [ih]
      · exact h
      · exact fun c hc => hpart c (List.mem_cons_of_mem _ hc)
      · exact List.cons_ne_nil _ _

/-! ### What stays as it is -/

structure Extends (o o' : Outline) : Prop where
  strings : o.strings ⊆ o'.strings
  deepest : o.deepest ≤ o'.deepest
  untidy : o.untidy = true → o'.untidy = true

/-- What an outline holds it keeps with one more character. -/
theorem extends_feed (o : Outline) (c : Char) : o.Extends (o.feed c) := by
  unfold feed
  split
  · split
    · exact ⟨List.subset_cons_self _ _, Nat.le_refl _, id⟩
    · exact ⟨List.Subset.refl _, Nat.le_refl _, id⟩
  · split
    · exact ⟨List.Subset.refl _, Nat.le_refl _, id⟩
    · split
      · exact ⟨List.Subset.refl _, Nat.le_max_left _ _, id⟩
      · split
        · refine ⟨List.Subset.refl _, Nat.le_refl _, ?_⟩
          intro huntidy
          show (o.untidy || o.behindComma) = true
          rw [huntidy]
          rfl
        · split
          · exact ⟨List.Subset.refl _, Nat.le_refl _, fun _ => rfl⟩
          · exact ⟨List.Subset.refl _, Nat.le_refl _, id⟩

/-- So the outline of a text extends that of any beginning. -/
theorem extends_append (a b : List Char) : (outline a).Extends (outline (a ++ b)) := by
  induction b using List.reverseRecOn with
  | nil =>
    rw [List.append_nil]
    exact ⟨List.Subset.refl _, Nat.le_refl _, id⟩
  | append_singleton b c ih =>
    have hfeed := extends_feed (outline (a ++ b)) c
    rw [← List.append_assoc, outline_concat]
    exact ⟨List.Subset.trans ih.strings hfeed.strings, Nat.le_trans ih.deepest hfeed.deepest,
      fun huntidy => hfeed.untidy (ih.untidy huntidy)⟩

end Outline

/-! ### Outlines and tokens -/

theorem Outline.isPlain_of_isBlank {c : Char} (h : isBlank c = true) : Outline.isPlain c = true := by
  simp only [isBlank, Bool.or_eq_true, decide_eq_true_eq] at h
  rcases h with ((rfl | rfl) | rfl) | rfl <;> rfl

/-- A character that belongs to a word or numeral. -/
theorem Outline.isPlain_of_endsLiteral_eq_false {c : Char} (h : endsLiteral c = false) (h' : c ∉ ['{', '[', '"']) :
    isPlain c = true ∧ isBlank c = false := by
  constructor
  · simp only [endsLiteral, Repair.isBlank, Bool.or_eq_false_iff, decide_eq_false_iff_not] at h
    simp only [List.mem_cons, List.not_mem_nil, or_false, not_or] at h'
    simp [isPlain, h, h']
  · by_contra hblank
    rw [Repair.endsLiteral_of_isBlank (Bool.not_eq_false _ ▸ hblank)] at h
    cases h

theorem Outline.isPlain_letters (w : Word) : ∀ c ∈ w.letters, isPlain c = true ∧ isBlank c = false := by
  cases w <;> simp [Word.letters, isPlain, isBlank]

theorem Outline.isPlain_of_start? {c : Char} {n : NumeralScan} (h : NumeralScan.start? c = some n) :
    isPlain c = true ∧ isBlank c = false := by
  obtain ⟨hends, hc⟩ := NumeralScan.endsLiteral_of_start? h
  exact isPlain_of_endsLiteral_eq_false hends hc

/-- A character that begins no numeral does not occur in one either. -/
theorem Outline.isPlain_of_feed {c : Char} {n n' : NumeralScan} (h : n.feed c = .more n') :
    isPlain c = true ∧ isBlank c = false := by
  apply isPlain_of_endsLiteral_eq_false
  · by_contra hends
    rw [n.feed_of_endsLiteral (Bool.not_eq_false _ ▸ hends)] at h
    split at h <;> cases h
  · intro hc
    have hdigit : digit? c = none := by
      have hall : ∀ c ∈ ['{', '[', '"'], digit? c = none := by simp [digit?]
      exact hall c hc
    have hsign : c ≠ '.' ∧ c ≠ 'e' ∧ c ≠ 'E' ∧ c ≠ '+' ∧ c ≠ '-' := by
      have hall : ∀ c ∈ ['{', '[', '"'], c ≠ '.' ∧ c ≠ 'e' ∧ c ≠ 'E' ∧ c ≠ '+' ∧ c ≠ '-' := by simp
      exact hall c hc
    obtain ⟨hpoint, he, hE, hplus, hminus⟩ := hsign
    unfold NumeralScan.feed at h
    rw [hdigit] at h
    cases hphase : n.phase <;>
      simp [hphase, NumeralScan.extend, hpoint, he, hE, hplus, hminus] at h

/-- Between two tokens the outline shows whether the last one was a comma. -/
structure Aligned (o : Outline) (passed : List Token) : Prop where
  outside : o.open? = none
  behindComma : o.behindComma = true ↔ passed.getLast? = some .comma

/-- Behind a token that is no comma the outline shows none. -/
theorem aligned_concat {o : Outline} {passed : List Token} {t : Token} (houtside : o.open? = none)
    (hcomma : o.behindComma = false) (ht : t ≠ .comma) : Aligned o (passed ++ [t]) where
  outside := houtside
  behindComma := by
    rw [hcomma, List.getLast?_append]
    simp [ht]

section Draws

variable {o : Outline} {s : Scan} {passed out rest' : List Token} {c : Char} {rest : List Char} {v : Value}

theorem Aligned.feed (h : Aligned o passed) (hstart : Starts c .between out) :
    Aligned (o.feed c) (passed ++ out) := by
  cases hstart with
  | blank hblank =>
    rw [Outline.feed_plain h.outside (Outline.isPlain_of_isBlank hblank), hblank, List.append_nil]
    exact ⟨h.outside, h.behindComma⟩
  | openArray =>
    rw [Outline.feed_open h.outside (Or.inl rfl)]
    exact aligned_concat h.outside rfl nofun
  | openObject =>
    rw [Outline.feed_open h.outside (Or.inr rfl)]
    exact aligned_concat h.outside rfl nofun
  | closeArray =>
    rw [Outline.feed_close h.outside (Or.inl rfl)]
    exact aligned_concat h.outside rfl nofun
  | closeObject =>
    rw [Outline.feed_close h.outside (Or.inr rfl)]
    exact aligned_concat h.outside rfl nofun
  | comma =>
    rw [Outline.feed_comma h.outside]
    exact ⟨h.outside, by simp⟩
  | colon =>
    rw [Outline.feed_plain h.outside rfl]
    exact aligned_concat h.outside rfl nofun

/-- No bracket closes behind a comma. -/
theorem behindComma_of_runs {t : Token} (h : Aligned o passed) (ht : t = .closeArray ∨ t = .closeObject)
    (hruns : Runs .start (passed ++ t :: rest') (.done v)) : o.behindComma = false := by
  -- Otherwise the last token is a comma, behind which a value or a key is due and no container can be
  -- closed.
  by_contra hcomma
  rw [Bool.not_eq_false, h.behindComma] at hcomma
  obtain ⟨front, rfl⟩ := List.getLast?_eq_some_iff.mp hcomma
  rw [List.append_assoc] at hruns
  obtain ⟨p, -, hruns⟩ := runs_append.mp hruns
  obtain ⟨stack, awaiting, p', rfl, hm, -, hruns⟩ := hruns.exists_moves
  obtain ⟨stack', awaiting', p'', rfl, hm', -, -⟩ := hruns.exists_moves
  have hnext : awaiting' = .value ∨ awaiting' = .key := by
    generalize hp : Progress.reading stack' awaiting' = p at hm
    cases hm with
    | scalar _ hv => cases hv
    | commaMember =>
      cases hp
      exact Or.inr rfl
    | commaItem =>
      cases hp
      exact Or.inl rfl
  rcases ht with rfl | rfl
  · cases hm' with
    | scalar _ hv => cases hv
    | closeArray ha => rcases hnext with rfl | rfl <;> rcases ha with h | h <;> cases h
  · cases hm' with
    | scalar _ hv => cases hv
    | closeObject ha => rcases hnext with rfl | rfl <;> rcases ha with h | h <;> cases h

/-- The outline and the scanner of tokens stand at the same place. -/
inductive Draws : Scan → List Token → Outline → Prop
  | between {passed : List Token} {o : Outline} : Aligned o passed → Draws .between passed o
  | word {w : Word} {left : List Char} {passed : List Token} {o : Outline} : o.open? = none →
      o.behindComma = false → (∀ c ∈ left, Outline.isPlain c = true ∧ isBlank c = false) →
      Draws (.word w left) passed o
  | numeral {n : NumeralScan} {passed : List Token} {o : Outline} : o.open? = none → o.behindComma = false →
      Draws (.numeral n) passed o
  | text {t : TextScan} {body : List Char} {escaped : Bool} {phase : Repair.BodyPhase} {passed : List Token}
      {o : Outline} : o.open? = some (body, escaped) → o.behindComma = false → TextScan.Fits t.phase phase escaped →
      Draws (.text t) passed o

theorem Aligned.start (h : Aligned o passed)
    (hruns : Runs .start (passed ++ ((Scan.start c).2 ++ (Scan.start c).1.tokens rest)) (.done v)) :
    Draws (Scan.start c).1 (passed ++ (Scan.start c).2) (o.feed c) ∧ (o.feed c).untidy = o.untidy := by
  have hstart := Scan.starts_start c
  generalize Scan.start c = found at hruns hstart
  obtain ⟨s, out⟩ := found
  -- words and numerals consist of plain characters, which change nothing but that they are behind no comma
  have hplain (hc : Outline.isPlain c = true ∧ isBlank c = false) : o.feed c = { o with behindComma := false } := by
    rw [Outline.feed_plain h.outside hc.1, hc.2]
    rfl
  cases hstart with
  | blank hblank =>
    refine ⟨.between (h.feed (.blank hblank)), ?_⟩
    rw [Outline.feed_plain h.outside (Outline.isPlain_of_isBlank hblank)]
  | openArray => exact ⟨.between (h.feed .openArray), by rw [Outline.feed_open h.outside (Or.inl rfl)]⟩
  | openObject => exact ⟨.between (h.feed .openObject), by rw [Outline.feed_open h.outside (Or.inr rfl)]⟩
  | comma => exact ⟨.between (h.feed .comma), by rw [Outline.feed_comma h.outside]⟩
  | colon => exact ⟨.between (h.feed .colon), by rw [Outline.feed_plain h.outside rfl]⟩
  | closeArray =>
    refine ⟨.between (h.feed .closeArray), ?_⟩
    rw [Outline.feed_close h.outside (Or.inl rfl), behindComma_of_runs h (Or.inl rfl) hruns, Bool.or_false]
  | closeObject =>
    refine ⟨.between (h.feed .closeObject), ?_⟩
    rw [Outline.feed_close h.outside (Or.inr rfl), behindComma_of_runs h (Or.inr rfl) hruns, Bool.or_false]
  | text =>
    rw [Outline.feed_quote h.outside]
    exact ⟨.text rfl rfl .plain, rfl⟩
  | @word w c left hw =>
    have hletters := Outline.isPlain_letters w
    rw [hw] at hletters
    rw [hplain (hletters c List.mem_cons_self)]
    exact ⟨.word h.outside rfl fun c' hc' => hletters c' (List.mem_cons_of_mem _ hc'), rfl⟩
  | numeral hn =>
    rw [hplain (Outline.isPlain_of_start? hn)]
    exact ⟨.numeral h.outside rfl, rfl⟩
  | stray =>
    obtain ⟨p, -, hruns⟩ := runs_append.mp hruns
    obtain ⟨stack, awaiting, p', rfl, hm, -, -⟩ := hruns.exists_moves
    cases hm with
    | scalar _ hv => cases hv

/-- A token that cannot be completed is in no document. -/
theorem value?_of_runs {t : Token} (ht : t.isLiteral = true) (hruns : Runs .start (passed ++ t :: rest') (.done v)) :
    ∃ u, t.value? = some u := by
  obtain ⟨p, -, hruns⟩ := runs_append.mp hruns
  obtain ⟨stack, awaiting, p', rfl, hm, -, -⟩ := hruns.exists_moves
  obtain ⟨-, u, hu, -⟩ := hm.literal ht
  exact ⟨u, hu⟩

theorem Draws.feed_word {w : Word} {left : List Char} (houtside : o.open? = none)
    (hleft : ∀ c ∈ left, Outline.isPlain c = true ∧ isBlank c = false)
    (hruns : Runs .start (passed ++ (Scan.word w left).tokens (c :: rest)) (.done v)) :
    Draws ((Scan.word w left).feed c).1 (passed ++ ((Scan.word w left).feed c).2) (o.feed c) ∧
      (o.feed c).untidy = o.untidy := by
  have hbroken {flaw : Flaw} {ts : List Token} (hruns : Runs .start (passed ++ .brokenWord flaw :: ts) (.done v)) :
      False := by
    obtain ⟨u, hu⟩ := value?_of_runs rfl hruns
    cases hu
  rw [Scan.tokens] at hruns
  -- A word that does not go on as it is spelled is broken, and the reading would have failed.
  cases left with
  | nil => exact (hbroken hruns).elim
  | cons r left =>
    by_cases hr : c = r
    · subst hr
      obtain ⟨hplain, hblank⟩ := hleft c List.mem_cons_self
      rw [Outline.feed_plain houtside hplain, hblank]
      refine ⟨?_, rfl⟩
      cases left with
      | nil =>
        rw [Scan.feed, if_pos rfl]
        exact .between (aligned_concat houtside rfl (by simp))
      | cons r' left =>
        rw [Scan.feed, if_pos rfl]
        · exact .word houtside rfl fun c' hc' => hleft c' (List.mem_cons_of_mem _ hc')
        · exact List.cons_ne_nil _ _
    · rw [Scan.feed_word_of_ne hr] at hruns
      exact (hbroken hruns).elim

theorem Draws.feed_numeral {n : NumeralScan} (houtside : o.open? = none) (hcomma : o.behindComma = false)
    (hruns : Runs .start (passed ++ (Scan.numeral n).tokens (c :: rest)) (.done v)) :
    Draws ((Scan.numeral n).feed c).1 (passed ++ ((Scan.numeral n).feed c).2) (o.feed c) ∧
      (o.feed c).untidy = o.untidy := by
  rw [Scan.tokens, Scan.feed] at hruns
  rw [Scan.feed]
  cases hfeed : n.feed c with
  | more n' =>
    obtain ⟨hplain, hblank⟩ := Outline.isPlain_of_feed hfeed
    rw [Outline.feed_plain houtside hplain, hblank]
    exact ⟨.numeral houtside rfl, rfl⟩
  | done =>
    simp only [hfeed] at hruns
    have htoken : n.token false ≠ .comma := by
      intro htoken
      have hkind := n.kind?_token false
      rw [htoken] at hkind
      cases hkind
    -- The numeral has ended in front of `c`, which is the first character of what comes next.
    rw [List.cons_append, List.append_cons] at hruns
    dsimp only
    rw [List.append_cons]
    exact (aligned_concat houtside hcomma htoken).start hruns
  | broken =>
    simp only [hfeed] at hruns
    obtain ⟨u, hu⟩ := value?_of_runs rfl hruns
    cases hu

theorem Draws.feed_text {t : TextScan} {body : List Char} {escaped : Bool} {phase : Repair.BodyPhase}
    (hopen : o.open? = some (body, escaped)) (hcomma : o.behindComma = false)
    (hfits : TextScan.Fits t.phase phase escaped)
    (hruns : Runs .start (passed ++ (Scan.text t).tokens (c :: rest)) (.done v)) :
    Draws ((Scan.text t).feed c).1 (passed ++ ((Scan.text t).feed c).2) (o.feed c) ∧
      (o.feed c).untidy = o.untidy := by
  obtain ⟨tok, ts, htokens, htok⟩ := Scan.exists_tokens_of_kind? (s := .text t) rfl (c :: rest)
  rw [htokens] at hruns
  obtain ⟨str, rfl⟩ := hruns.exists_text htok
  rcases TextScan.feed_of_tokens htokens (TextScan.isWholeText_text str) with
    ⟨rfl, hphase, -, hfeed⟩ | ⟨t', hfeed, htext'⟩
  · rw [hfits.not_escaped hphase] at hopen
    rw [hfeed, Outline.feed_end hopen]
    exact ⟨.between (aligned_concat rfl hcomma (by simp)), rfl⟩
  · obtain ⟨hquote, hfits'⟩ := TextScan.fits_feed hfits hfeed htext' (TextScan.isWholeText_text str)
    rw [TextScan.scan_feed hfeed, List.append_nil, Outline.feed_inside hopen hquote]
    exact ⟨.text rfl hcomma hfits', rfl⟩

theorem Draws.feed (h : Draws s passed o) (hruns : Runs .start (passed ++ s.tokens (c :: rest)) (.done v)) :
    Draws (s.feed c).1 (passed ++ (s.feed c).2) (o.feed c) ∧ (o.feed c).untidy = o.untidy := by
  cases h with
  | between h => exact h.start hruns
  | word houtside _ hleft => exact Draws.feed_word houtside hleft hruns
  | numeral houtside hcomma => exact Draws.feed_numeral houtside hcomma hruns
  | text hopen hcomma hfits => exact Draws.feed_text hopen hcomma hfits hruns

theorem Draws.foldl_feed {cs : List Char} (h : Draws s passed o)
    (hruns : Runs .start (passed ++ s.tokens cs) (.done v)) : (cs.foldl Outline.feed o).untidy = o.untidy := by
  induction cs generalizing s passed o with
  | nil => rfl
  | cons c cs ih =>
    obtain ⟨hfeed, huntidy⟩ := h.feed hruns
    rw [Scan.tokens, ← List.append_assoc] at hruns
    rw [List.foldl_cons, ih hfeed hruns, huntidy]

end Draws

/-- A document that can be read is not untidy. -/
theorem not_untidy_of_runs {cs : List Char} {v : Value} (h : Runs .start (tokens cs) (.done v)) :
    (outline cs).untidy = false := by
  have hstart : Draws .between [] {} := .between ⟨rfl, by simp⟩
  exact hstart.foldl_feed h

end GuidedDecoding.Json
