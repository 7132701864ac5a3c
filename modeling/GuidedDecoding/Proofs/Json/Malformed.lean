import GuidedDecoding.Proofs.Json.Complete
import GuidedDecoding.Proofs.Json.Growth
import GuidedDecoding.Proofs.Json.Outline

/-!
# Texts that are no documents

What is repaired of a text that is no beginning of a document can be read all the same, if only its strings are
well-formed and its brackets do not nest too deep, and unless what is kept of it is untidy (`parse_repaired_iff`).
The scanner takes a closing bracket right behind a comma, and a form feed between tokens, and no document has
either. Everything else that does not belong into a document cuts the text short.

`Stands` relates the scanner to the reading of a document behind any text whose outline is clean: as long as it
has not halted, what has been read so far is the beginning of one.
-/

namespace GuidedDecoding.Json

open Progress
open Repair (Checkpoint Stance endsLiteral)
open Scan (Finds EndsAs Starts)

/-! ### Words and numerals -/

structure Scan.Reads (s : Scan) (cs : List Char) (t : Token) : Prop where
  plain : ∀ c ∈ cs, Outline.isPlain c = true ∧ isBlank c = false
  ends : EndsAs (s.after cs) (s.emitted cs) t

namespace Scan

variable {w : Word} {left cs : List Char} {t : Token} {n : NumeralScan} {c : Char}

/-- A text without tokens holds only blanks, and these would end a literal. -/
theorem eq_nil_of_tokens (h : Json.tokens cs = []) (hends : ∀ c ∈ cs, endsLiteral c = false) : cs = [] := by
  cases cs with
  | nil => rfl
  | cons c cs =>
    have hblank := blank_of_tokens_eq_nil h c List.mem_cons_self
    have hc := hends c List.mem_cons_self
    rw [Repair.endsLiteral_of_isBlank hblank] at hc
    cases hc

theorem not_isWholeLiteral_of_eq_brokenWord {flaw : Flaw} (h : Token.brokenWord flaw = t) : ¬t.IsWholeLiteral :=
  h ▸ Token.not_isWholeLiteral_brokenWord flaw

/-- The letters of a word that is read are those of the word. -/
theorem reads_word (h : (Scan.word w left).tokens cs = [t]) (ht : t.IsWholeLiteral)
    (hends : ∀ c ∈ cs, endsLiteral c = false) (hleft : ∀ c ∈ left, Outline.isPlain c = true ∧ isBlank c = false) :
    (Scan.word w left).Reads cs t := by
  -- what is left of the word shortens with the text; where they part, the token is a broken word
  induction cs generalizing left with
  | nil => exact absurd ht (not_isWholeLiteral_of_eq_brokenWord (List.cons.inj h).1)
  | cons c cs ih =>
    rw [tokens] at h
    cases left with
    | nil => exact absurd ht (not_isWholeLiteral_of_eq_brokenWord (List.cons.inj h).1)
    | cons r left =>
      by_cases hr : c = r
      · subst hr
        have hc := hleft c List.mem_cons_self
        have hends' : ∀ c' ∈ cs, endsLiteral c' = false := fun c' hc' => hends c' (List.mem_cons_of_mem _ hc')
        cases left with
        | nil =>
          have hfeed : (Scan.word w [c]).feed c = (.between, [.word w]) := by rw [feed, if_pos rfl]
          rw [hfeed] at h
          obtain ⟨rfl, hrest⟩ := List.cons.inj h
          obtain rfl := eq_nil_of_tokens hrest hends'
          refine ⟨List.forall_mem_singleton.mpr hc, ?_⟩
          rw [after_cons, emitted, hfeed]
          exact ⟨rfl, fun _ _ => ⟨rfl, rfl⟩⟩
        | cons r' left =>
          have hfeed : (Scan.word w (c :: r' :: left)).feed c = (.word w (r' :: left), []) := by
            rw [feed, if_pos rfl]
            exact List.cons_ne_nil _ _
          rw [hfeed] at h
          have hreads := ih h hends' fun c' hc' => hleft c' (List.mem_cons_of_mem _ hc')
          refine ⟨List.forall_mem_cons.mpr ⟨hc, hreads.plain⟩, ?_⟩
          rw [after_cons, emitted, hfeed]
          exact hreads.ends
      · rw [feed_word_of_ne hr] at h
        exact absurd ht (not_isWholeLiteral_of_eq_brokenWord (List.cons.inj h).1)

theorem reads_numeral (h : (Scan.numeral n).tokens cs = [t]) (ht : t.IsWholeLiteral)
    (hends : ∀ c ∈ cs, endsLiteral c = false) : (Scan.numeral n).Reads cs t := by
  induction cs generalizing n with
  | nil =>
    obtain rfl : n.token true = t := (List.cons.inj h).1
    have hcomplete : n.complete = true := by
      by_contra hnot
      rw [NumeralScan.token, if_neg hnot] at ht
      exact Token.not_isWholeLiteral_brokenNumber _ ht
    refine ⟨by simp, ?_⟩
    rw [NumeralScan.token_of_complete hcomplete]
    exact endsAs_numeral hcomplete
  | cons c cs ih =>
    rw [tokens, feed] at h
    cases hfeed : n.feed c with
    | more n' =>
      rw [hfeed] at h
      have hreads := ih h fun c' hc' => hends c' (List.mem_cons_of_mem _ hc')
      refine ⟨List.forall_mem_cons.mpr ⟨Outline.isPlain_of_feed hfeed, hreads.plain⟩, ?_⟩
      rw [after_cons, emitted, feed, hfeed]
      exact hreads.ends
    | done =>
      -- The character would have to begin another token.
      rw [hfeed] at h
      have hrest : Json.tokens (c :: cs) = [] := (List.cons.inj h).2
      cases eq_nil_of_tokens hrest hends
    | broken =>
      rw [hfeed] at h
      obtain rfl : Token.brokenNumber false = t := (List.cons.inj h).1
      exact absurd ht (Token.not_isWholeLiteral_brokenNumber _)

end Scan

/-- A document that begins with a word or numeral has no other token. -/
theorem exists_literal_of_runs {s : Scan} {k : TokenKind} {cs : List Char} {v : Value} (hs : s.kind? = some k)
    (hk : k ≠ .text) (hruns : Runs .start (s.tokens cs) (.done v)) :
    ∃ t, s.tokens cs = [t] ∧ t.value? = some v ∧ t.IsWholeLiteral := by
  obtain ⟨t, ts, htokens, ht⟩ := Scan.exists_tokens_of_kind? hs cs
  have hliteral : t.isLiteral = true := by
    cases k with
    | text => exact absurd rfl hk
    | word => rw [Token.isLiteral, ht]; rfl
    | numeral => rw [Token.isLiteral, ht]; rfl
  rw [htokens] at hruns ⊢
  obtain ⟨stack, awaiting, p, hp, hm, -, hrest⟩ := hruns.exists_moves
  cases hp
  obtain ⟨-, u, hu, rfl⟩ := hm.literal hliteral
  cases hrest
  exact ⟨t, rfl, hu, Token.isWholeLiteral_of_value? hliteral hu⟩

/-- What the scanner takes for a literal is a document by itself. -/
theorem runs_of_isLiteral {part : List Char} (h : Repair.isLiteral part = true) :
    ∃ v, Runs .start (tokens part) (.done v) := by
  unfold Repair.isLiteral at h
  cases hv : Value.ofTokens (tokens part) with
  | ok v => exact ⟨v, Value.ofTokens_eq_ok_iff.mp hv⟩
  | error flaw =>
    rw [hv] at h
    cases h

/-- What the scanner takes to be a word or numeral is one. -/
theorem reads_of_isLiteral {part : List Char} (hends : ∀ c ∈ part, endsLiteral c = false)
    (hhead : ∀ c ∈ part.head?, c ∉ ['{', '[', '"']) (h : Repair.isLiteral part = true) :
    ∃ t u, Scan.between.Reads part t ∧ t.value? = some u := by
  obtain ⟨v, hruns⟩ := runs_of_isLiteral h
  cases part with
  | nil => cases hruns
  | cons c part =>
    have hc := hends c List.mem_cons_self
    have hends' : ∀ c' ∈ part, endsLiteral c' = false := fun c' hc' => hends c' (List.mem_cons_of_mem _ hc')
    have hplain := Outline.isPlain_of_endsLiteral_eq_false hc (hhead c rfl)
    rw [tokens, Scan.tokens, Scan.feed] at hruns
    have hcons {s : Scan} {t : Token} (hfound : Scan.start c = (s, [])) (hreads : s.Reads part t) :
        Scan.between.Reads (c :: part) t := by
      refine ⟨List.forall_mem_cons.mpr ⟨hplain, hreads.plain⟩, ?_⟩
      rw [Scan.after_cons, Scan.emitted, Scan.feed, hfound]
      exact hreads.ends
    have hstart := Scan.starts_start c
    generalize hfound : Scan.start c = found at hruns hstart hcons
    obtain ⟨s, out⟩ := found
    -- the first character says what kind of token it can be; only two kinds are literals
    cases hstart with
    | @word w c left hw =>
      have hletters := Outline.isPlain_letters w
      rw [hw] at hletters
      obtain ⟨t, htokens, hv, ht⟩ := exists_literal_of_runs rfl (by decide) hruns
      exact ⟨t, v, hcons rfl (Scan.reads_word htokens ht hends' fun c' hc' =>
        hletters c' (List.mem_cons_of_mem _ hc')), hv⟩
    | numeral =>
      obtain ⟨t, htokens, hv, ht⟩ := exists_literal_of_runs rfl (by decide) hruns
      exact ⟨t, v, hcons rfl (Scan.reads_numeral htokens ht hends'), hv⟩
    | stray =>
      obtain ⟨stack, awaiting, p, hp, hm, -, -⟩ := hruns.exists_moves
      cases hm with
      | scalar _ hv => cases hv
    | blank hblank =>
      rw [Repair.endsLiteral_of_isBlank hblank] at hc
      cases hc
    | openArray => exact absurd (hhead _ rfl) (by decide)
    | openObject => exact absurd (hhead _ rfl) (by decide)
    | text => exact absurd (hhead _ rfl) (by decide)
    | closeArray => cases hc
    | closeObject => cases hc
    | comma => cases hc
    | colon => cases hc

/-! ### Strings -/

/-- A string that ends with the text is read up to its last quote. -/
theorem TextScan.exists_of_tokens {t : TextScan} {body : List Char} {s : String}
    (h : (Scan.text t).tokens (body ++ ['"']) = [.text s]) :
    ∃ t', (Scan.text t).after body = .text t' ∧ (Scan.text t).emitted body = [] ∧ t'.phase = .plain ∧
      t'.token = .text s := by
  induction body generalizing t with
  | nil =>
    rcases feed_of_tokens h (isWholeText_text s) with ⟨-, hphase, htoken, -⟩ | ⟨t', -, h⟩
    · exact ⟨t, rfl, rfl, hphase, htoken⟩
    · exact absurd (Or.inr ⟨s, (List.cons.inj h).1⟩) (t'.not_isWholeText_brokenToken .truncated)
  | cons c body ih =>
    rcases feed_of_tokens h (isWholeText_text s) with ⟨-, -, -, hfeed⟩ | ⟨t', hfeed, h⟩
    · -- Behind an earlier quote no other one could follow.
      rw [List.cons_append, Scan.tokens, hfeed] at h
      have hquote := blank_of_tokens_eq_nil (List.cons.inj h).2 '"' (List.mem_append_right _ List.mem_cons_self)
      cases hquote
    · obtain ⟨t'', hafter, hemitted, hphase, htoken⟩ := ih h
      refine ⟨t'', ?_, ?_, hphase, htoken⟩
      · rw [Scan.after_cons, scan_feed hfeed, hafter]
      · rw [Scan.emitted, scan_feed hfeed, hemitted]
        rfl

/-- A string with a well-formed body, behind a part of the text that ends between tokens. -/
theorem IsText.finds {front body : List Char} {passed : List Token} (h : IsText body)
    (hfront : Finds front .between passed) :
    ∃ t s, Finds (front ++ '"' :: body) (.text t) passed ∧ t.phase = .plain ∧ t.token = .text s := by
  obtain ⟨s, hs⟩ := h
  rw [parse, String.toList_ofList] at hs
  have htokens : (Scan.text {}).tokens (body ++ ['"']) = [.text s] := Value.eq_spelling_of_ofTokens hs
  obtain ⟨t, hafter, hemitted, hphase, htoken⟩ := TextScan.exists_of_tokens htokens
  have hbody : Finds ('"' :: body) (.text t) [] := ⟨hafter, hemitted⟩
  refine ⟨t, s, ?_, hphase, htoken⟩
  have hfinds := hfront.append hbody
  rwa [List.append_nil] at hfinds

/-- The last quote of such a string. -/
theorem Scan.feed_quote {t : TextScan} (h : t.phase = .plain) : (Scan.text t).feed '"' = (.between, [t.token]) := by
  rw [Scan.feed, TextScan.feed, h]
  rfl

/-! ### What has been read -/

/-- The outline of a text in which nothing is wrong but, perhaps, the order of its tokens. -/
structure Outline.Clean (o : Outline) : Prop where
  tidy : o.untidy = false
  strings : ∀ body ∈ o.strings, IsText body
  nested : o.deepest ≤ nestingLimit

/-- What is clean is clean up to any point. -/
theorem Outline.Clean.of_extends {o o' : Outline} (h : o'.Clean) (hext : o.Extends o') : o.Clean where
  tidy := by
    by_contra huntidy
    have hlater := hext.untidy (Bool.not_eq_false _ ▸ huntidy)
    rw [h.tidy] at hlater
    cases hlater
  strings := fun body hbody => h.strings body (hext.strings hbody)
  nested := Nat.le_trans hext.deepest h.nested

/-- Behind the tokens `passed` the text so far is the beginning of a document. -/
structure Spot (seen : List Char) (passed : List Token) (p : Progress) (closers : List Char) : Prop where
  reached : Runs .start passed p
  closers : closers = p.stack.map Frame.closer
  aligned : Aligned (outline seen) passed
  depth : (outline seen).depth = p.stack.length

/-- The outline of a text in an open string that has begun behind `front`. -/
def Opens (front body : List Char) (escaped : Bool) : Prop :=
  outline (front ++ '"' :: body) = { outline front with open? := some (body.reverse, escaped), behindComma := false }

/-- As long as the scanner has not halted, what it has read of the text is the beginning of a document. -/
inductive Stands (seen : List Char) (r : Repair) : Prop
  | halted : r.stance = .halted → Stands seen r
  | between {passed : List Token} {stack : List Frame} {awaiting : Awaiting} : Finds seen .between passed →
      Spot seen passed (.reading stack awaiting) r.closers → r.stance = (Progress.reading stack awaiting).stance →
      Stands seen r
  | literal {front part : List Char} {passed : List Token} {stack : List Frame} {awaiting : Awaiting} :
      seen = front ++ part → Finds front .between passed → Spot front passed (.reading stack awaiting) r.closers →
      awaiting.IsValue → part ≠ [] →
      (∀ c ∈ part, endsLiteral c = false) → (∀ c ∈ part.head?, c ∉ ['{', '[', '"']) →
      r.stance = .literal part.reverse → Stands seen r
  | keyText {front body : List Char} {escaped : Bool} {passed : List Token} {stack : List Frame}
      {awaiting : Awaiting} : seen = front ++ '"' :: body → Finds front .between passed →
      Spot front passed (.reading stack awaiting) r.closers → awaiting.IsKey → Opens front body escaped →
      r.stance = .keyText escaped → Stands seen r
  | valueText {front body kept : List Char} {escaped : Bool} {phase : Repair.BodyPhase} {passed : List Token}
      {stack : List Frame} {awaiting : Awaiting} : seen = front ++ '"' :: body → Finds front .between passed →
      Spot front passed (.reading stack awaiting) r.closers → awaiting.IsValue → Opens front body escaped →
      r.stance = .valueText escaped phase kept → Stands seen r

/-- The second scanner stands as it should, and either has the checkpoint of the first one or a good one. -/
structure Continues (cs : List Char) (r r' : Repair) : Prop where
  stands : Stands cs r'
  marked : ∀ m, r'.checkpoint = some m → r.checkpoint = some m ∨ ∃ ts p, m.At ts p

section Steps

variable {cs : List Char} {c : Char} {passed out : List Token} {p p' : Progress} {stack fs : List Frame} {f : Frame}
  {awaiting awaiting' : Awaiting} {closers : List Char} {r r' : Repair}
  {t : Token} {u : Value}

/-! ### Between tokens -/

theorem Spot.stands (h : Spot cs passed p r.closers) (hfinds : Finds cs .between passed)
    (hstance : r.stance = p.stance) : Stands cs r := by
  cases p with
  | done v => exact .halted hstance
  | reading stack awaiting => exact .between hfinds h hstance

/-- A place at which the text can be closed. -/
theorem Spot.marks (h : Spot cs passed p r'.closers) (hfinds : Finds cs .between passed) (hclosable : Closable p)
    (hseen : r'.seen = cs.reverse) (hstance : r'.stance = p.stance)
    (hcheckpoint : r'.checkpoint = some ⟨r'.seen, r'.closers, r'.started⟩) : Continues cs r r' where
  stands := h.stands hfinds hstance
  marked := by
    intro m hm
    rw [hcheckpoint] at hm
    cases hm
    refine Or.inr ⟨passed, p, ?_, h.reached, hclosable, h.closers⟩
    rw [hseen, List.reverse_reverse]
    exact cut_of_between hfinds

theorem continues_of_stands (h : Stands cs r') (hcheckpoint : r'.checkpoint = r.checkpoint) : Continues cs r r' :=
  ⟨h, fun _ hm => Or.inl (hcheckpoint ▸ hm)⟩

theorem length_eq_of_closers {fs fs' : List Frame} (h : fs.map Frame.closer = fs'.map Frame.closer) :
    fs.length = fs'.length := by
  simpa using congrArg List.length h

theorem Spot.next (h : Spot cs passed p r.closers) (hstart : Scan.start c = (.between, out)) (hruns : Runs p out p')
    (hdepth : ((outline cs).feed c).depth = p'.stack.length) (hclosers : closers = p'.stack.map Frame.closer) :
    Spot (cs ++ [c]) (passed ++ out) p' closers where
  reached := runs_append.mpr ⟨p, h.reached, hruns⟩
  closers := hclosers
  aligned := by
    have hstarts := Scan.starts_start c
    rw [hstart] at hstarts
    rw [outline_concat]
    exact h.aligned.feed hstarts
  depth := by rw [outline_concat, hdepth]

/-- In a tidy text no form feed stands between tokens. -/
theorem isBlank_of_tidy (h : Aligned (outline cs) passed) (htidy : (outline (cs ++ [c])).untidy = false)
    (hblank : Repair.isBlank c = true) : isBlank c = true := by
  have hc : c ≠ '\x0C' := by
    rintro rfl
    rw [outline_concat] at htidy
    simp [Outline.feed, h.outside] at htidy
  simpa [Repair.isBlank, isBlank, hc] using hblank

/-- Where the scanner stands behind a character. It may be in front of that that a word or numeral ends. -/
def FindsNext (cs : List Char) (c : Char) (passed : List Token) : Prop :=
  Finds (cs ++ [c]) (Scan.start c).1 (passed ++ (Scan.start c).2)

/-- A token of one character is found with it. -/
theorem FindsNext.finds (h : FindsNext cs c passed) (hstart : Scan.start c = (.between, out)) :
    Finds (cs ++ [c]) .between (passed ++ out) := by
  rwa [FindsNext, hstart] at h

theorem Spot.blank (h : Spot cs passed (.reading stack awaiting) r.closers) (hfinds : FindsNext cs c passed)
    (hstance : r.stance = (Progress.reading stack awaiting).stance) (htidy : (outline (cs ++ [c])).untidy = false)
    (hblank : Repair.isBlank c = true) : Continues (cs ++ [c]) r { r with seen := c :: r.seen } := by
  have hblank := isBlank_of_tidy h.aligned htidy hblank
  have hstart : Scan.start c = (.between, []) := by
    unfold Scan.start
    exact if_pos hblank
  have hdepth : ((outline cs).feed c).depth = stack.length := by
    rw [Outline.feed_plain h.aligned.outside (Outline.isPlain_of_isBlank hblank)]
    exact h.depth
  exact continues_of_stands (.between (hfinds.finds hstart) (h.next hstart .nil hdepth h.closers) hstance) rfl

theorem Spot.enter (h : Spot cs passed (.reading stack awaiting) r.closers) (hfinds : FindsNext cs c passed)
    (hseen : r.seen = cs.reverse) (hnested : (outline (cs ++ [c])).deepest ≤ nestingLimit) (hc : c = '[' ∨ c = '{')
    (hstart : Scan.start c = (.between, [t])) (hm : Moves stack awaiting t (.reading (f :: stack) awaiting'))
    (hclosable : Closable (.reading (f :: stack) awaiting')) :
    Continues (cs ++ [c]) r
      (Repair.enter { r with seen := c :: r.seen } f.closer (Progress.reading (f :: stack) awaiting').stance) := by
  have hfeed := Outline.feed_open h.aligned.outside hc
  have hdepth : ((outline cs).feed c).depth = (f :: stack).length := by
    rw [hfeed]
    exact congrArg (· + 1) h.depth
  have hlimit : stack.length < nestingLimit := by
    rw [outline_concat, hfeed] at hnested
    have hdepth : (outline cs).depth = stack.length := h.depth
    have hmax := Nat.le_trans (Nat.le_max_right _ _) hnested
    omega
  have hspot := h.next hstart (.cons (hm.step_eq hlimit) .nil) hdepth (congrArg (f.closer :: ·) h.closers)
  refine Spot.marks hspot (hfinds.finds hstart) hclosable ?_ rfl rfl
  show c :: r.seen = _
  rw [hseen, List.reverse_append]
  rfl

theorem Spot.leave (h : Spot cs passed (.reading (f :: fs) awaiting) r.closers) (hfinds : FindsNext cs f.closer passed)
    (hseen : r.seen = cs.reverse) (hstep : step nestingLimit (f :: fs) awaiting f.closeToken = .ok (supply u fs)) :
    Continues (cs ++ [f.closer]) r (Repair.leave { r with seen := f.closer :: r.seen }) := by
  have hc : f.closer = ']' ∨ f.closer = '}' := by cases f <;> simp [Frame.closer]
  have hstart : Scan.start f.closer = (.between, [f.closeToken]) := by cases f <;> rfl
  have hseen' : f.closer :: r.seen = (cs ++ [f.closer]).reverse := by simp [hseen]
  have harrives : (Repair.leave { r with seen := f.closer :: r.seen }).Arrives (cs ++ [f.closer]) (supply u fs) := by
    apply Repair.arrives_leave
    · exact hseen'
    · exact h.closers
  have hdepth : ((outline cs).feed f.closer).depth = (supply u fs).stack.length := by
    have hdepth : (outline cs).depth = (f :: fs).length := h.depth
    rw [Outline.feed_close h.aligned.outside hc, length_eq_of_closers (closer_supply u fs)]
    show (outline cs).depth - 1 = fs.length
    rw [hdepth]
    rfl
  have hspot := h.next hstart (.cons hstep .nil) hdepth harrives.closers
  exact hspot.marks (hfinds.finds hstart) (closable_supply u fs) harrives.seen harrives.stance
    (Repair.checkpoint_leave _)

/-- Where a key must follow, or an item of an array, the last token was a comma. -/
theorem getLast?_of_runs (h : Runs .start passed (.reading stack awaiting))
    (hdue : awaiting = .key ∨ awaiting = .value ∧ ∃ items fs, stack = .array items :: fs) :
    passed.getLast? = some .comma := by
  rcases passed.eq_nil_or_concat' with rfl | ⟨front, t, rfl⟩
  · generalize hp : Progress.reading stack awaiting = p at h
    cases h
    cases hp
    rcases hdue with hdue | ⟨-, items, fs, hstack⟩
    · cases hdue
    · cases hstack
  · obtain ⟨p, hfront, hlast⟩ := runs_append.mp h
    obtain ⟨stack', awaiting', p', rfl, hm, -, hnil⟩ := hlast.exists_moves
    have hsupply {u : Value} {fs : List Frame} (hp : supply u fs = .reading stack awaiting) : False := by
      obtain rfl := awaiting_of_supply hp
      rcases hdue with hdue | ⟨hdue, -⟩ <;> cases hdue
    generalize hq : Progress.reading stack awaiting = q at hnil
    cases hnil
    rw [List.getLast?_append]
    cases hm with
    | commaMember => rfl
    | commaItem => rfl
    | scalar => exact (hsupply hq.symm).elim
    | closeArray => exact (hsupply hq.symm).elim
    | closeObject => exact (hsupply hq.symm).elim
    | colon =>
      -- A colon stands in an object.
      cases hq
      rcases hdue with hdue | ⟨-, items, fs, rfl⟩
      · cases hdue
      · have hspells := hfront.spells (.value [])
        cases hspells
    | _ =>
      cases hq
      rcases hdue with hdue | ⟨hdue, -⟩ <;> cases hdue

/-- In a tidy text no bracket closes behind a comma. -/
theorem not_comma_of_tidy (h : Aligned (outline cs) passed) (hc : c = ']' ∨ c = '}')
    (htidy : (outline (cs ++ [c])).untidy = false) : passed.getLast? ≠ some .comma := by
  intro hcomma
  rw [outline_concat, Outline.feed_close h.outside hc, h.behindComma.mpr hcomma] at htidy
  simp at htidy

theorem opens_quote (h : Aligned (outline cs) passed) : Opens cs [] false := by
  rw [Opens, outline_concat, Outline.feed_quote h.outside]
  rfl

/-- The innermost container is known by its closing bracket. -/
theorem exists_array_of_closer (h : (stack.map Frame.closer).head? = some ']') :
    ∃ items fs, stack = .array items :: fs := by
  cases stack with
  | nil => cases h
  | cons f fs =>
    cases f with
    | array items => exact ⟨items, fs, rfl⟩
    | object members key => simp [Frame.closer] at h

theorem exists_object_of_closer (h : (stack.map Frame.closer).head? = some '}') :
    ∃ members key fs, stack = .object members key :: fs := by
  cases stack with
  | nil => cases h
  | cons f fs =>
    cases f with
    | array items => simp [Frame.closer] at h
    | object members key => exact ⟨members, key, fs, rfl⟩

theorem Spot.feed_value (h : Spot cs passed (.reading stack awaiting) r.closers) (hfinds : Finds cs .between passed)
    (ha : awaiting.IsValue) (hstance : r.stance = .value) (hseen : r.seen = cs.reverse)
    (hclean : (outline (cs ++ [c])).Clean) :
    Continues (cs ++ [c]) r (r.feed c) := by
  rw [Repair.feed_value hstance, Repair.begin]
  split
  · next hblank => exact h.blank (hfinds.feed c) (hstance.trans (ha.stance stack).symm) hclean.tidy hblank
  · split
    · next hc =>
      subst hc
      exact h.enter (f := .object [] "") (hfinds.feed _) hseen hclean.nested (Or.inr rfl) rfl (.openObject ha) .members
    · split
      · next hc =>
        subst hc
        exact h.enter (f := .array []) (hfinds.feed _) hseen hclean.nested (Or.inl rfl) rfl (.openArray ha) .items
      · split
        -- A bracket right behind a comma is what an untidy outline shows.
        · next hclose =>
          obtain ⟨rfl, hhead⟩ := hclose
          obtain ⟨items, fs, rfl⟩ := exists_array_of_closer (h.closers ▸ hhead)
          cases ha with
          | itemOrClose => exact h.leave (f := .array items) (hfinds.feed _) hseen rfl
          | value =>
            have hcomma := getLast?_of_runs h.reached (Or.inr ⟨rfl, items, fs, rfl⟩)
            exact absurd hcomma (not_comma_of_tidy h.aligned (Or.inl rfl) hclean.tidy)
        · split
          · next hc =>
            subst hc
            exact continues_of_stands (.valueText rfl hfinds h ha (opens_quote h.aligned) rfl) rfl
          · split
            · exact continues_of_stands (.halted rfl) rfl
            · next hobject harray _ hquote hends =>
              refine continues_of_stands (.literal rfl hfinds h ha (List.cons_ne_nil _ _) ?_ ?_ rfl) rfl
              · exact List.forall_mem_singleton.mpr (Bool.not_eq_true _ ▸ hends)
              · intro c' hc'
                cases hc'
                simp [hobject, harray, hquote]

theorem Spot.feed_key (h : Spot cs passed (.reading stack awaiting) r.closers) (hfinds : Finds cs .between passed)
    (ha : awaiting.IsKey) (hstance : r.stance = .key) (hseen : r.seen = cs.reverse)
    (hclean : (outline (cs ++ [c])).Clean) :
    Continues (cs ++ [c]) r (r.feed c) := by
  simp only [Repair.feed, hstance]
  split
  · next hblank =>
    have hnext := h.blank (hfinds.feed c) (hstance.trans (ha.stance stack).symm) hclean.tidy hblank
    rwa [hstance] at hnext
  · split
    · next hc =>
      subst hc
      exact continues_of_stands (.keyText rfl hfinds h ha (opens_quote h.aligned) rfl) rfl
    -- So is a brace right behind a comma; at the begin of an object it may stand.
    · split
      · next hclose =>
        obtain ⟨rfl, hhead⟩ := hclose
        obtain ⟨members, key, fs, rfl⟩ := exists_object_of_closer (h.closers ▸ hhead)
        cases ha with
        | keyOrClose =>
          have hleave := h.leave (f := .object members key) (hfinds.feed _) hseen rfl
          rwa [hstance] at hleave
        | key =>
          have hcomma := getLast?_of_runs h.reached (Or.inl rfl)
          exact absurd hcomma (not_comma_of_tidy h.aligned (Or.inr rfl) hclean.tidy)
      · exact continues_of_stands (.halted rfl) rfl

theorem Spot.feed_colon (h : Spot cs passed (.reading stack .colon) r.closers) (hfinds : Finds cs .between passed)
    (hstance : r.stance = .colon) (hclean : (outline (cs ++ [c])).Clean) : Continues (cs ++ [c]) r (r.feed c) := by
  simp only [Repair.feed, hstance]
  split
  · next hblank =>
    have hnext := h.blank (hfinds.feed c) hstance hclean.tidy hblank
    rwa [hstance] at hnext
  · split
    · next hc =>
      subst hc
      have hdepth : ((outline cs).feed ':').depth = stack.length := by
        rw [Outline.feed_plain h.aligned.outside rfl]
        exact h.depth
      exact continues_of_stands (.between (hfinds.feed _) (h.next rfl (.cons rfl .nil) hdepth h.closers) rfl) rfl
    · exact continues_of_stands (.halted rfl) rfl

theorem exists_step_comma (stack : List Frame) :
    ∃ awaiting, step nestingLimit stack .commaOrClose .comma = .ok (.reading stack awaiting) ∧
      (if (stack.map Frame.closer).head? = some '}' then Stance.key else .value) =
        (Progress.reading stack awaiting).stance := by
  cases stack with
  | nil => exact ⟨.value, rfl, rfl⟩
  | cons f fs =>
    cases f with
    | array items => exact ⟨.value, rfl, rfl⟩
    | object members key => exact ⟨.key, rfl, rfl⟩

theorem Spot.feed_commaOrClose (h : Spot cs passed (.reading stack .commaOrClose) r.closers)
    (hfinds : FindsNext cs c passed) (hstance : r.stance = .commaOrClose) (hseen : r.seen = cs.reverse)
    (hclean : (outline (cs ++ [c])).Clean) :
    Continues (cs ++ [c]) r (r.feed c) := by
  rw [Repair.feed_commaOrClose hstance, Repair.separate]
  split
  · next hblank => exact h.blank hfinds hstance hclean.tidy hblank
  · split
    · next hc =>
      subst hc
      have hdepth : ((outline cs).feed ',').depth = stack.length := by
        rw [Outline.feed_comma h.aligned.outside]
        exact h.depth
      obtain ⟨awaiting, hstep, hnext⟩ := exists_step_comma stack
      rw [← show r.closers = stack.map Frame.closer from h.closers] at hnext
      exact continues_of_stands (.between (hfinds.finds rfl) (h.next rfl (.cons hstep .nil) hdepth h.closers) hnext) rfl
    · split
      · next hclose =>
        obtain ⟨hc, hhead⟩ := hclose
        cases stack with
        | nil =>
          rw [h.closers] at hhead
          cases hhead
        | cons f fs =>
          rw [h.closers] at hhead
          obtain rfl : f.closer = c := Option.some.inj hhead
          cases f with
          | array items => exact h.leave (f := .array items) hfinds hseen rfl
          | object members key => exact h.leave (f := .object members key) hfinds hseen rfl
      · exact continues_of_stands (.halted rfl) rfl

/-! ### Inside a string -/

/-- A character that does not end an open string leaves it open. -/
theorem Opens.feed {front body : List Char} {escaped : Bool} (h : Opens front body escaped)
    (hquote : ¬(c = '"' ∧ escaped = false)) : Opens front (body ++ [c]) (!escaped && c = '\\') := by
  have hopen : (outline (front ++ '"' :: body)).open? = some (body.reverse, escaped) := by rw [h]
  rw [Opens, ← List.cons_append, ← List.append_assoc, outline_concat, Outline.feed_inside hopen hquote, h,
    List.reverse_append]
  rfl

/-- A quote ends an open string. -/
theorem Opens.close {front body : List Char} (h : Opens front body false) :
    outline (front ++ '"' :: body ++ ['"']) =
      { outline front with strings := body :: (outline front).strings, open? := none, behindComma := false } := by
  have hopen : (outline (front ++ '"' :: body)).open? = some (body.reverse, false) := by rw [h]
  rw [outline_concat, Outline.feed_end hopen, h, List.reverse_reverse]

/-- Behind a string that has just ended. -/
theorem Spot.close {front body : List Char} (h : Spot front passed p closers) (hfront : Finds front .between passed)
    (hopens : Opens front body false) (hclean : (outline (front ++ '"' :: body ++ ['"'])).Clean) :
    ∃ s, Finds (front ++ '"' :: body ++ ['"']) .between (passed ++ [.text s]) ∧
      ∀ p', Runs p [.text s] p' → p'.stack.map Frame.closer = p.stack.map Frame.closer →
        Spot (front ++ '"' :: body ++ ['"']) (passed ++ [.text s]) p' closers := by
  have hbody : IsText body := by
    apply hclean.strings
    rw [hopens.close]
    exact List.mem_cons_self
  obtain ⟨t, s, hfinds, hphase, htoken⟩ := hbody.finds hfront
  have hfeed := hfinds.feed '"'
  rw [Scan.feed_quote hphase, htoken] at hfeed
  refine ⟨s, hfeed, ?_⟩
  intro p' hruns hclosers
  refine ⟨runs_append.mpr ⟨p, h.reached, hruns⟩, h.closers.trans hclosers.symm, ?_, ?_⟩
  · rw [hopens.close]
    exact aligned_concat rfl rfl nofun
  · rw [hopens.close]
    exact h.depth.trans (length_eq_of_closers hclosers).symm

theorem exists_object_of_isKey (h : Runs .start passed (.reading stack awaiting)) (ha : awaiting.IsKey) :
    ∃ members key fs, stack = .object members key :: fs := by
  have hspells := h.spells (.value [])
  cases ha <;> cases hspells <;> exact ⟨_, _, _, rfl⟩

theorem Spot.feed_keyText {front body : List Char} {escaped : Bool}
    (h : Spot front passed (.reading stack awaiting) r.closers) (hfront : Finds front .between passed)
    (ha : awaiting.IsKey) (hopens : Opens front body escaped) (hstance : r.stance = .keyText escaped)
    (hclean : (outline (front ++ '"' :: body ++ [c])).Clean) :
    Continues (front ++ '"' :: body ++ [c]) r (r.feed c) := by
  by_cases hquote : c = '"' ∧ escaped = false
  · obtain ⟨rfl, rfl⟩ := hquote
    obtain ⟨s, hfinds, hspot⟩ := h.close hfront hopens hclean
    obtain ⟨members, key, fs, rfl⟩ := exists_object_of_isKey h.reached ha
    rw [Repair.feed_quote_of_keyText hstance]
    have hstep : step nestingLimit (.object members key :: fs) awaiting (.text s) =
        .ok (.reading (.object members s :: fs) .colon) := by cases ha <;> rfl
    exact continues_of_stands (.between hfinds (hspot _ (.cons hstep .nil) rfl) rfl) rfl
  · rw [Repair.feed_keyText hstance hquote]
    refine continues_of_stands (.keyText ?_ hfront h ha (hopens.feed hquote) rfl) rfl
    rw [List.append_assoc, List.cons_append]

theorem Spot.feed_valueText {front body kept : List Char} {escaped : Bool} {phase : Repair.BodyPhase}
    (h : Spot front passed (.reading stack awaiting) r.closers) (hfront : Finds front .between passed)
    (ha : awaiting.IsValue) (hopens : Opens front body escaped) (hstance : r.stance = .valueText escaped phase kept)
    (hseen : r.seen = (front ++ '"' :: body).reverse) (hclean : (outline (front ++ '"' :: body ++ [c])).Clean) :
    Continues (front ++ '"' :: body ++ [c]) r (r.feed c) := by
  by_cases hquote : c = '"' ∧ escaped = false
  · obtain ⟨rfl, rfl⟩ := hquote
    obtain ⟨s, hfinds, hspot⟩ := h.close hfront hopens hclean
    rw [Repair.feed_quote_of_valueText hstance]
    have hseen' : '"' :: r.seen = (front ++ '"' :: body ++ ['"']).reverse := by simp [hseen]
    have harrives : (Repair.complete { r with seen := '"' :: r.seen }).Arrives (front ++ '"' :: body ++ ['"'])
        (supply (.text s) stack) := by
      apply Repair.arrives_complete
      · exact hseen'
      · exact h.closers
    have hspot' := hspot _ (.cons (step_scalar ha rfl) .nil) (closer_supply (.text s) stack)
    exact Spot.marks hspot' hfinds (closable_supply _ _) harrives.seen harrives.stance rfl
  · rw [Repair.feed_valueText hstance hquote]
    refine continues_of_stands (.valueText ?_ hfront h ha (hopens.feed hquote) rfl) rfl
    rw [List.append_assoc, List.cons_append]

/-! ### Behind a word or numeral -/

/-- The end of a word or numeral shows in the character behind it. -/
structure Ended (cs : List Char) (passed : List Token) (stack : List Frame) (closers : List Char) : Prop where
  spot : ∃ u, Spot cs passed (supply u stack) closers
  cut : Cut cs passed
  next : ∀ c, endsLiteral c = true → FindsNext cs c passed

/-- A literal that is whole could end here. -/
theorem Spot.literal {front part : List Char} (h : Spot front passed (.reading stack awaiting) r.closers)
    (hfront : Finds front .between passed) (ha : awaiting.IsValue) (hne : part ≠ [])
    (hends : ∀ c ∈ part, endsLiteral c = false) (hhead : ∀ c ∈ part.head?, c ∉ ['{', '[', '"'])
    (hliteral : Repair.isLiteral part = true) : ∃ t, Ended (front ++ part) (passed ++ [t]) stack r.closers := by
  obtain ⟨t, u, hreads, hu⟩ := reads_of_isLiteral hends hhead hliteral
  have hpart : Finds part (Scan.between.after part) (Scan.between.emitted part) := ⟨rfl, rfl⟩
  have houtline : outline (front ++ part) = { outline front with behindComma := false } := by
    rw [outline_append, Outline.foldl_feed_plain h.aligned.outside hreads.plain hne]
  refine ⟨t, ⟨u, ?_, ?_, ?_, ?_⟩, cut_of_endsAs hfront hpart hreads.ends, ?_⟩
  · exact runs_append.mpr ⟨_, h.reached, .cons (step_scalar ha hu) .nil⟩
  · exact h.closers.trans (closer_supply u stack).symm
  · rw [houtline]
    refine aligned_concat h.aligned.outside rfl ?_
    rintro rfl
    cases hu
  · rw [houtline, length_eq_of_closers (closer_supply u stack)]
    exact h.depth
  · intro c hc
    have hfinds := (hfront.append hpart).feed c
    obtain ⟨hstart, hfound⟩ := hreads.ends.feed c hc
    rw [hstart, List.append_assoc passed, hfound, List.append_cons passed] at hfinds
    exact hfinds

/-- The scanner marks the end of the literal. -/
theorem Ended.marked {m : Checkpoint} (h : Ended cs passed stack r.closers) (hseen : r.seen = cs.reverse)
    (hm : r.complete.checkpoint = some m) : ∃ ts p, m.At ts p := by
  obtain ⟨u, hspot⟩ := h.spot
  cases hm
  refine ⟨passed, supply u stack, ?_, hspot.reached, closable_supply u stack, hspot.closers⟩
  show Cut r.seen.reverse passed
  rw [hseen, List.reverse_reverse]
  exact h.cut

/-- The character that ends it. -/
theorem Ended.feed (h : Ended cs passed stack r.closers) (hseen : r.seen = cs.reverse) (hc : endsLiteral c = true)
    (hclean : (outline (cs ++ [c])).Clean) : Continues (cs ++ [c]) r (r.complete.feed c) := by
  have hcontinues : Continues (cs ++ [c]) r.complete (r.complete.feed c) := by
    obtain ⟨u, hspot⟩ := h.spot
    have hstance : r.complete.stance = (supply u stack).stance := (Repair.arrives_complete hseen (by
      rw [hspot.closers, closer_supply]) u).stance
    generalize hp : supply u stack = p at hspot hstance
    cases p with
    | done v =>
      rw [Repair.feed_halted hstance]
      exact continues_of_stands (.halted hstance) rfl
    | reading stack' awaiting' =>
      obtain rfl := awaiting_of_supply hp
      exact Spot.feed_commaOrClose hspot (h.next c hc) hstance hseen hclean
  refine ⟨hcontinues.stands, ?_⟩
  intro m hm
  rcases hcontinues.marked m hm with hm | hat
  · exact Or.inr (h.marked hseen hm)
  · exact Or.inr hat

/-! ### Any text -/

/-- In a literal that has come to its end. -/
theorem Stands.ended {chars : List Char} (h : Stands cs r) (hstance : r.stance = .literal chars)
    (hliteral : Repair.isLiteral chars.reverse = true) : ∃ passed stack, Ended cs passed stack r.closers := by
  cases h with
  | @literal front part passed stack awaiting hcs hfinds hspot ha hne hends hhead hstance' =>
    obtain rfl : part.reverse = chars := Stance.literal.inj (hstance'.symm.trans hstance)
    rw [List.reverse_reverse] at hliteral
    obtain ⟨t, hended⟩ := hspot.literal hfinds ha hne hends hhead hliteral
    exact ⟨_, _, hcs ▸ hended⟩
  | halted hstance' =>
    rw [hstance'] at hstance
    cases hstance
  | @between passed stack awaiting _ _ hstance' =>
    rw [hstance'] at hstance
    cases awaiting <;> cases hstance
  | keyText _ _ _ _ _ hstance' =>
    rw [hstance'] at hstance
    cases hstance
  | valueText _ _ _ _ _ hstance' =>
    rw [hstance'] at hstance
    cases hstance

theorem Stands.feed (h : Stands cs r) (hseen : r.seen = cs.reverse) (hclean : (outline (cs ++ [c])).Clean) :
    Continues (cs ++ [c]) r (r.feed c) := by
  have hstands := h
  -- each place decides which characters it knows, as the scanner does
  cases h with
  | halted hstance =>
    rw [Repair.feed_halted hstance]
    exact continues_of_stands (.halted hstance) rfl
  | @between passed stack awaiting hfinds hspot hstance =>
    cases awaiting with
    | value => exact hspot.feed_value hfinds .value hstance hseen hclean
    | itemOrClose => exact hspot.feed_value hfinds .itemOrClose hstance hseen hclean
    | key => exact hspot.feed_key hfinds .key hstance hseen hclean
    | keyOrClose => exact hspot.feed_key hfinds .keyOrClose hstance hseen hclean
    | colon => exact hspot.feed_colon hfinds hstance hclean
    | commaOrClose => exact hspot.feed_commaOrClose (hfinds.feed c) hstance hseen hclean
  | @literal front part passed stack awaiting hcs hfinds hspot ha hne hends hhead hstance =>
    cases hc : endsLiteral c with
    | false =>
      rw [Repair.feed_literal_more hstance hc]
      have hgrown : cs ++ [c] = front ++ (part ++ [c]) := by rw [hcs, List.append_assoc]
      refine continues_of_stands (.literal hgrown hfinds hspot ha ?_ ?_ ?_ ?_) rfl
      · exact List.append_ne_nil_of_left_ne_nil hne _
      · exact List.forall_mem_append.mpr ⟨hends, List.forall_mem_singleton.mpr hc⟩
      · rw [List.head?_append_of_ne_nil _ hne]
        exact hhead
      · rw [List.reverse_append]
        rfl
    | true =>
      -- A literal that is not whole halts the scanner, and one that is ends in front of `c`.
      cases hliteral : Repair.isLiteral part.reverse.reverse with
      | false =>
        rw [Repair.feed_not_literal hstance hc hliteral]
        exact continues_of_stands (.halted rfl) rfl
      | true =>
        obtain ⟨passed', stack', hended⟩ := hstands.ended hstance hliteral
        rw [Repair.feed_literal hstance hc hliteral]
        exact hended.feed hseen hc hclean
  | keyText hcs hfinds hspot ha hopens hstance =>
    subst hcs
    exact hspot.feed_keyText hfinds ha hopens hstance hclean
  | valueText hcs hfinds hspot ha hopens hstance =>
    subst hcs
    exact hspot.feed_valueText hfinds ha hopens hstance hseen hclean

end Steps

/-- Behind any text the scanner stands as it should if the outline is clean, and so it did at the last checkpoint. -/
structure Sound (cs : List Char) : Prop where
  marked : ∀ m, (Repair.scan cs).checkpoint = some m → (outline m.kept.reverse).Clean → ∃ ts p, m.At ts p
  stands : (outline cs).Clean → Stands cs (Repair.scan cs)

/-- Each character keeps the scanner sound, so it is sound behind every text. -/
theorem sound (cs : List Char) : Sound cs := by
  induction cs using List.reverseRecOn with
  | nil =>
    refine ⟨nofun, fun _ => ?_⟩
    have hspot : Spot [] [] .start [] := ⟨.nil, rfl, ⟨rfl, by simp [outline]⟩, rfl⟩
    exact .between .nil hspot rfl
  | append_singleton cs c ih =>
    have hseen := Repair.seen_scan cs
    have hfeed (hclean : (outline (cs ++ [c])).Clean) :
        Continues (cs ++ [c]) (Repair.scan cs) (Repair.scan (cs ++ [c])) := by
      rw [Repair.scan_concat]
      exact (ih.stands (hclean.of_extends (Outline.extends_append cs [c]))).feed hseen hclean
    refine ⟨?_, fun hclean => (hfeed hclean).stands⟩
    intro m hm hclean
    have hcases := (Repair.feeds_feed (Repair.scan cs) c).checkpoint_cases (Repair.scan_concat cs c ▸ hm)
    rcases hcases with hold | ⟨hkept, -⟩ | ⟨⟨chars, hstance, hliteral⟩, -, hm'⟩
    · exact ih.marked m hold hclean
    · have hcs : m.kept.reverse = cs ++ [c] := by rw [hkept, hseen, List.reverse_cons, List.reverse_reverse]
      rcases (hfeed (hcs ▸ hclean)).marked m hm with hold | hat
      · exact ih.marked m hold hclean
      · exact hat
    · -- A literal has ended in front of the character, whatever that is.
      have hcs : m.kept.reverse = cs := by
        cases hm'
        show (Repair.scan cs).seen.reverse = cs
        rw [hseen, List.reverse_reverse]
      obtain ⟨passed, stack, hended⟩ := (ih.stands (hcs ▸ hclean)).ended hstance hliteral
      exact hended.marked hseen hm'

/-! ### What is repaired of any text -/

/-- A string that is open at the end of the text is closed along with all brackets. -/
theorem Stands.readable {cs kept : List Char} {r : Repair} {escaped : Bool} {phase : Repair.BodyPhase}
    (h : Stands cs r) (hstance : r.stance = .valueText escaped phase kept)
    (hopen : ∀ body ∈ (outline cs).open?, IsText body.1.reverse) :
    ∃ w, Runs .start (tokens (cs ++ '"' :: r.closers)) (.done w) := by
  -- In a string value there is only this one case; the stances of the others are not those of a string.
  cases h with
  | @valueText front body _ escaped' _ passed stack awaiting hcs hfront hspot ha hopens _ =>
    subst hcs
    have hbody : IsText body := by
      have hbody := hopen (body.reverse, escaped') (by rw [hopens]; rfl)
      rwa [List.reverse_reverse] at hbody
    obtain ⟨t, s, hfinds, hphase, htoken⟩ := hbody.finds hfront
    have hquote := hfinds.feed '"'
    rw [Scan.feed_quote hphase, htoken] at hquote
    obtain ⟨w, -, hclosers⟩ := runs_closers_supply (.text s) stack
    refine ⟨w, ?_⟩
    have hstack : r.closers = stack.map Frame.closer := hspot.closers
    rw [List.append_cons, hquote.tokens_append, List.append_assoc, hstack]
    show Runs .start (passed ++ (.text s :: tokens (stack.map Frame.closer))) (.done w)
    rw [tokens_closers]
    exact runs_append.mpr ⟨_, hspot.reached, .cons (step_scalar ha rfl) hclosers⟩
  | halted hstance' =>
    rw [hstance'] at hstance
    cases hstance
  | @between passed stack awaiting _ _ hstance' =>
    rw [hstance'] at hstance
    cases awaiting <;> cases hstance
  | literal _ _ _ _ _ _ _ hstance' =>
    rw [hstance'] at hstance
    cases hstance
  | keyText _ _ _ _ _ hstance' =>
    rw [hstance'] at hstance
    cases hstance

/-- What is repaired of a text can be read if what is kept of it is clean. -/
theorem readable_of_clean {cs : List Char} {d : Repaired} (hd : (Repair.scan cs).repaired = some d)
    (hclean : (outline d.kept).Clean) (hopen : ∀ body ∈ (outline d.kept).open?, IsText body.1.reverse) :
    ∃ w, Runs .start (tokens (d.kept ++ d.closing)) (.done w) := by
  cases htext : (Repair.scan cs).stance.inText with
  | false =>
    obtain ⟨m, hm, -, rfl⟩ := (Repair.repaired_of_not_inText htext).mp hd
    obtain ⟨ts, p, hat⟩ := (sound cs).marked m hm hclean
    exact hat.readable
  | true =>
    cases hstance : (Repair.scan cs).stance with
    | valueText escaped phase kept =>
      rw [Repair.repaired_of_inText htext, Repair.settled, hstance] at hd
      cases hd
      -- The string is open in the same way behind what is kept of it.
      obtain ⟨escaped', hstance', hclosers⟩ := Repair.scan_kept hstance
      rw [← hclosers]
      exact ((sound kept.reverse).stands hclean).readable hstance' hopen
    | _ =>
      rw [hstance] at htext
      cases htext

/-- Of a text whose strings are well-formed and whose brackets nest no deeper than those of a document may, what is
repaired can be read exactly if what is kept of it is tidy: if it has no form feed outside of strings, and no
closing bracket right behind a comma. -/
theorem parse_repaired_iff {text : String} {r : Repaired} (hr : repair text = some r)
    (hstrings : ∀ body ∈ (outline text.toList).strings, IsText body)
    (hopen : ∀ body ∈ (outline r.kept).open?, IsText body.1.reverse)
    (hnested : (outline text.toList).deepest ≤ nestingLimit) :
    (∃ w, parse r.text = .ok w) ↔ (outline r.kept).untidy = false := by
  have hparse (w : Value) : parse r.text = .ok w ↔ Runs .start (tokens (r.kept ++ r.closing)) (.done w) := by
    rw [parse, Repaired.text, String.toList_ofList]
    exact Value.ofTokens_eq_ok_iff
  obtain ⟨⟨more, hmore⟩, -⟩ := repair_append hr ""
  have hext : (outline r.kept).Extends (outline text.toList) := hmore ▸ Outline.extends_append r.kept more
  constructor
  · rintro ⟨w, hw⟩
    by_contra huntidy
    have hlater := (Outline.extends_append r.kept r.closing).untidy (Bool.not_eq_false _ ▸ huntidy)
    rw [not_untidy_of_runs ((hparse w).mp hw)] at hlater
    cases hlater
  · intro htidy
    have hclean : (outline r.kept).Clean :=
      ⟨htidy, fun body hbody => hstrings body (hext.strings hbody), Nat.le_trans hext.deepest hnested⟩
    obtain ⟨w, hw⟩ := readable_of_clean hr hclean hopen
    exact ⟨w, (hparse w).mpr hw⟩

/-- A key in an array cuts the text short, and so does an escape at the end. -/
theorem parse_repaired_iff_of_key :
    (∃ w, parse (⟨"[\x7b\"a\": \"b\"\x7d".toList, "]".toList⟩ : Repaired).text = .ok w) ∧
      ∃ w, parse (⟨"[\x7b\"a\": \"b".toList, "\"\x7d]".toList⟩ : Repaired).text = .ok w := by
  have hkey : repair "[\x7b\"a\": \"b\"\x7d \"c\": tru" =
      some ⟨"[\x7b\"a\": \"b\"\x7d".toList, "]".toList⟩ := by decide
  have hescape : repair "[\x7b\"a\": \"b\\u00" = some ⟨"[\x7b\"a\": \"b".toList, "\"\x7d]".toList⟩ := by decide
  have ha : IsText ['a'] := ⟨"a", rfl⟩
  have hb : IsText ['b'] := ⟨"b", rfl⟩
  have hc : IsText ['c'] := ⟨"c", rfl⟩
  constructor
  · refine (parse_repaired_iff hkey ?_ nofun (by decide)).mpr rfl
    have hstrings : (outline "[\x7b\"a\": \"b\"\x7d \"c\": tru".toList).strings = [['c'], ['b'], ['a']] := rfl
    rw [hstrings]
    simp [ha, hb, hc]
  · refine (parse_repaired_iff hescape ?_ ?_ (by decide)).mpr rfl
    · have hstrings : (outline "[\x7b\"a\": \"b\\u00".toList).strings = [['a']] := rfl
      rw [hstrings]
      simp [ha]
    · have hopen : (outline "[\x7b\"a\": \"b".toList).open? = some (['b'], false) := rfl
      rw [show (outline (Repaired.mk "[\x7b\"a\": \"b".toList "\"\x7d]".toList).kept).open? = _ from hopen]
      simp [hb]

/-- A comma in front of the closing bracket gets into the document, and so does a form feed. -/
theorem parse_repair_of_untidy :
    ((outline "[1,]".toList).strings = [] ∧ (outline "[1,]".toList).open? = none ∧
        (outline "[1,]".toList).deepest = 1 ∧ repair "[1,]" = some ⟨"[1,]".toList, []⟩ ∧
        parse "[1,]" = .error .malformed) ∧
      (outline "[1\x0C]".toList).strings = [] ∧ (outline "[1\x0C]".toList).open? = none ∧
        (outline "[1\x0C]".toList).deepest = 1 ∧ repair "[1\x0C]" = some ⟨"[1\x0C]".toList, []⟩ ∧
        parse "[1\x0C]" = .error .malformed :=
  ⟨⟨rfl, rfl, rfl, by decide, rfl⟩, rfl, rfl, rfl, by decide, rfl⟩

end GuidedDecoding.Json
