import GuidedDecoding.Proofs.Json.Repair
import GuidedDecoding.Proofs.Json.Skip

/-!
# Documents that are complete

Of a document that can be skipped the scanner of unfinished documents leaves out nothing, unless it is a word or
numeral that might still go on (`repaired_of_skims`). Such a document need not have a value: a string with half a
surrogate pair in it can be skipped, and so can any number of containers inside each other.

`KeepsUp` relates the scanner to the scanner of tokens and to skipping, character by character. Nothing need be
known of checkpoints inside the outermost value, for the last one lies where that ends.
-/

namespace GuidedDecoding.Json

open Progress
open Reader (lenient)
open Repair (Stance endsLiteral)
open Scan (Finds InLiteral Starts)

/-! ### Words and numerals by themselves -/

/-- Behind blanks the text has nothing but characters of one word or numeral, and nothing ends it. -/
def Repair.isBare (cs : List Char) : Bool :=
  let part := cs.dropWhile isBlank
  part.all (fun c => !endsLiteral c) && part.head?.all (· ∉ ['{', '[', '"'])

namespace Repair

variable {r : Repair} {cs blanks part : List Char} {c : Char}

/-- A text is bare when it is split into blanks and the rest like this. -/
theorem isBare_append (hblanks : ∀ c ∈ blanks, isBlank c = true) (hpart : ∀ c ∈ part, endsLiteral c = false)
    (hhead : ∀ c ∈ part.head?, c ∉ ['{', '[', '"']) : isBare (blanks ++ part) = true := by
  have hdrop : (blanks ++ part).dropWhile isBlank = part := by
    rw [List.dropWhile_append_of_pos hblanks]
    cases part with
    | nil => rfl
    | cons c part =>
      have hc : ¬isBlank c = true := by simp [isBlank_of_endsLiteral_eq_false (hpart c List.mem_cons_self)]
      exact List.dropWhile_cons_of_neg hc
  rw [isBare, hdrop, Bool.and_eq_true]
  constructor
  · rw [List.all_eq_true]
    intro c hc
    rw [hpart c hc]
    rfl
  · cases part with
    | nil => rfl
    | cons c part => simpa using hhead c rfl

/-- A bare text is blanks and then part of a word or numeral. -/
theorem exists_of_isBare (h : isBare cs = true) :
    ∃ blanks part, cs = blanks ++ part ∧ (∀ c ∈ blanks, isBlank c = true) ∧
      (∀ c ∈ part, endsLiteral c = false) ∧ ∀ c ∈ part.head?, c ∉ ['{', '[', '"'] := by
  rw [isBare, Bool.and_eq_true, List.all_eq_true] at h
  obtain ⟨hpart, hhead⟩ := h
  refine ⟨cs.takeWhile isBlank, cs.dropWhile isBlank, List.takeWhile_append_dropWhile.symm, ?_, ?_, ?_⟩
  · intro c hc
    exact List.all_eq_true.mp List.all_takeWhile c hc
  · intro c hc
    simpa using hpart c hc
  · intro c hc
    rw [Option.mem_def.mp hc] at hhead
    simpa using hhead

theorem isBare_of_append {more : List Char} (h : isBare (cs ++ more) = true) : isBare cs = true := by
  obtain ⟨blanks, part, heq, hblanks, hpart, hhead⟩ := exists_of_isBare h
  rcases List.append_eq_append_iff.mp heq with ⟨blanks', rfl, -⟩ | ⟨part', rfl, rfl⟩
  · have hbare : isBare (cs ++ []) = true :=
      isBare_append (fun c hc => hblanks c (List.mem_append_left _ hc)) nofun nofun
    rwa [List.append_nil] at hbare
  · refine isBare_append hblanks (fun c hc => hpart c (List.mem_append_left _ hc)) ?_
    intro c hc
    cases part' with
    | nil => cases hc
    | cons c' part' =>
      cases hc
      exact hhead _ rfl

/-- Between tokens blanks change nothing but what has been seen. -/
theorem foldl_feed_blanks {p : Progress} (hstance : r.stance = p.stance) (h : ∀ c ∈ blanks, isBlank c = true) :
    blanks.foldl feed r = { r with seen := blanks.reverse ++ r.seen } := by
  induction blanks generalizing r with
  | nil => rfl
  | cons c blanks ih =>
    rw [List.foldl_cons, feed_blank hstance (h c List.mem_cons_self), ih]
    · simp
    · exact hstance
    · intro c' hc'
      exact h c' (List.mem_cons_of_mem _ hc')

/-- A word or numeral grows by whatever does not end it. -/
theorem foldl_feed_literal {chars : List Char} (hstance : r.stance = .literal chars)
    (h : ∀ c ∈ part, endsLiteral c = false) :
    part.foldl feed r = { r with seen := part.reverse ++ r.seen, stance := .literal (part.reverse ++ chars) } := by
  induction part generalizing r chars with
  | nil => rw [List.foldl_nil, List.reverse_nil, List.nil_append, List.nil_append, ← hstance]
  | cons c part ih =>
    rw [List.foldl_cons, feed_literal_more hstance (h c List.mem_cons_self), ih rfl]
    · simp
    · intro c' hc'
      exact h c' (List.mem_cons_of_mem _ hc')

/-- There is nothing to read of a word or numeral that might still go on. -/
theorem repaired_of_isBare (h : isBare cs = true) : (scan cs).repaired = none := by
  obtain ⟨blanks, part, rfl, hblanks, hpart, hhead⟩ := exists_of_isBare h
  rw [scan, List.foldl_append, foldl_feed_blanks (p := .start) rfl hblanks]
  cases part with
  | nil => rfl
  | cons c part =>
    have hc : endsLiteral c = false := hpart c List.mem_cons_self
    rw [List.foldl_cons, feed_value rfl, isBlank_of_endsLiteral_eq_false hc, if_neg Bool.false_ne_true,
      begin_literal hc (hhead c rfl), foldl_feed_literal rfl fun c hc => hpart c (List.mem_cons_of_mem _ hc)]
    rfl

example : isBare " 12".toList = true := by decide
example : isBare "12 ".toList = false := by decide

end Repair

/-! ### Tokens that can be skipped -/

theorem Token.IsWholeText.exists_lenient {t : Token} (h : t.IsWholeText) : ∃ s, lenient t = .text s := by
  rcases h with rfl | ⟨s, rfl⟩
  · exact ⟨"", rfl⟩
  · exact ⟨s, rfl⟩

namespace Progress

variable {stack : List Frame} {awaiting : Awaiting} {t : Token} {ts us : List Token} {p q : Progress}

/-- A string that can be skipped ends well. -/
theorem Moves.isWholeText (h : Moves stack awaiting (lenient t) p) (ht : t.kind? = some .text) :
    t.IsWholeText := by
  cases t with
  | text s => exact TextScan.isWholeText_text s
  | unpairedText => exact Or.inl rfl
  | brokenText reading skipping =>
    cases h with
    | scalar _ hv => cases hv
  | _ => cases ht

/-- A string is a value or a key. -/
theorem Moves.isValue_or_isKey {s : String} (h : Moves stack awaiting (.text s) p) :
    awaiting.IsValue ∨ awaiting.IsKey := by
  cases h with
  | scalar ha => exact Or.inl ha
  | key ha => exact Or.inr ha

/-- A word or numeral that can be skipped ends well and is a value. -/
theorem Moves.wholeLiteral (h : Moves stack awaiting (lenient t) p) (ht : t.isLiteral = true) :
    t.IsWholeLiteral ∧ awaiting.IsValue ∧ ∃ u, p = supply u stack := by
  -- skipping takes a word or numeral that it cannot read for one that it can
  have hliteral : (lenient t).isLiteral = true := by
    cases t with
    | hugeNumber => rfl
    | word w => rfl
    | number n => rfl
    | brokenWord flaw => rfl
    | brokenNumber atEnd => rfl
    | _ => cases ht
  obtain ⟨ha, u, hu, rfl⟩ := h.literal hliteral
  refine ⟨?_, ha, u, rfl⟩
  cases t with
  | hugeNumber => exact Or.inr (Or.inr rfl)
  | word w => exact Or.inl ⟨w, rfl⟩
  | number n => exact Or.inr (Or.inl ⟨n, rfl⟩)
  | brokenWord flaw => cases hu
  | brokenNumber atEnd => cases hu
  | _ => cases ht

/-- Skipping takes no faulty token for a comma or a closing bracket. -/
theorem lenient_separator (h : lenient t = .comma ∨ lenient t = .closeArray ∨ lenient t = .closeObject) :
    t = .comma ∨ t = .closeArray ∨ t = .closeObject := by
  cases t <;> simp_all [lenient]

/-- Every word or numeral stands in its place where the tokens can be skipped. -/
theorem Skims.literalStands (h : Skims p ts q []) : LiteralStands ts := by
  rintro t rest rfl ht
  cases h with
  | step hm hrest =>
    obtain ⟨hwhole, -, u, rfl⟩ := hm.wholeLiteral ht
    refine ⟨hwhole, ?_⟩
    intro t' ht'
    cases rest with
    | nil => cases ht'
    | cons t₁ rest =>
      cases ht'
      generalize hp : supply u _ = p at hrest
      cases hrest with
      | step hm' _ =>
        obtain rfl := awaiting_of_supply hp
        exact lenient_separator hm'.separator

/-- No token leads back in front of the outermost value. -/
theorem Moves.ne_outside {awaiting' : Awaiting} (h : Moves stack awaiting t p)
    (hdue : (Progress.reading stack awaiting).Due) : p ≠ .reading [] awaiting' := by
  -- A value that is taken in outside of all containers ends the reading.
  have hsupply (v : Value) (fs : List Frame) : supply v fs ≠ .reading [] awaiting' := by
    cases fs with
    | nil => exact nofun
    | cons f fs => cases f <;> exact nofun
  rintro rfl
  generalize hp : Progress.reading [] awaiting' = p at h
  cases h with
  | scalar => exact hsupply _ _ hp.symm
  | closeArray => exact hsupply _ _ hp.symm
  | closeObject => exact hsupply _ _ hp.symm
  | openArray => cases hp
  | openObject => cases hp
  | key => cases hp
  | commaMember => cases hp
  | colon =>
    cases hp
    cases hdue
  | commaItem =>
    cases hp
    cases hdue

end Progress

/-! ### Behind a token -/

/-- The scanner stands behind a token, up to which the text is `cs` and where the reading has come to `p`. -/
structure Repair.Arrives (r : Repair) (cs : List Char) (p : Progress) : Prop where
  seen : r.seen = cs.reverse
  stance : r.stance = p.stance
  closers : r.closers = p.stack.map Frame.closer
  ended : ∀ v, p = .done v → r.checkpoint = some ⟨cs.reverse, [], true⟩

namespace Repair

variable {r : Repair} {cs : List Char} {c : Char} {stack fs : List Frame} {f : Frame} {awaiting : Awaiting}
  {t : Token} {p : Progress}

theorem arrives_reading (hseen : r.seen = cs.reverse)
    (hstance : r.stance = (Progress.reading stack awaiting).stance) (hclosers : r.closers = stack.map Frame.closer) :
    r.Arrives cs (.reading stack awaiting) where
  seen := hseen
  stance := hstance
  closers := hclosers
  ended := by
    intro v hv
    cases hv

/-- A scanner that completes a value arrives where the reading does that takes the value in. -/
theorem arrives_complete (hseen : r.seen = cs.reverse) (hclosers : r.closers = stack.map Frame.closer)
    (u : Value) : r.complete.Arrives cs (supply u stack) where
  seen := hseen
  stance := by
    rw [stance_supply u stack Frame.closer, ← hclosers]
    rfl
  closers := hclosers.trans (closer_supply u stack).symm
  ended := by
    intro v hv
    cases stack with
    | nil =>
      show some (Checkpoint.mk r.seen r.closers true) = _
      rw [hseen, hclosers]
      rfl
    | cons f fs => cases f <;> cases hv

theorem arrives_leave (hseen : r.seen = cs.reverse) (hclosers : r.closers = f.closer :: fs.map Frame.closer)
    (u : Value) : r.leave.Arrives cs (supply u fs) := by
  rw [leave]
  cases fs with
  | nil =>
    simp only [hclosers, List.map_nil]
    exact ⟨hseen, rfl, rfl, fun v _ => by rw [← hseen]; rfl⟩
  | cons f' fs =>
    simp only [hclosers, List.map_cons]
    refine ⟨hseen, ?_, (closer_supply u (f' :: fs)).symm, ?_⟩
    · rw [stance_supply u (f' :: fs) Frame.closer]
      rfl
    · intro v hv
      cases f' <;> cases hv

/-- A bracket, comma or colon, where it may stand. -/
theorem arrives_feed (hm : Moves stack awaiting t p) (hstart : Starts c .between [t])
    (hseen : r.seen = cs.reverse) (hstance : r.stance = (Progress.reading stack awaiting).stance)
    (hclosers : r.closers = stack.map Frame.closer) : (r.feed c).Arrives (cs ++ [c]) p := by
  have hseen' : c :: r.seen = (cs ++ [c]).reverse := by simp [hseen]
  -- for each character the token says which moves there are, and each of them where the scanner must be
  cases hstart with
  | openArray =>
    cases hm with
    | scalar _ hv => cases hv
    | openArray ha =>
      rw [feed_value (hstance.trans (ha.stance stack))]
      exact arrives_reading hseen' rfl (congrArg (']' :: ·) hclosers)
  | openObject =>
    cases hm with
    | scalar _ hv => cases hv
    | openObject ha =>
      rw [feed_value (hstance.trans (ha.stance stack))]
      exact arrives_reading hseen' rfl (congrArg ('}' :: ·) hclosers)
  | closeArray =>
    cases hm with
    | scalar _ hv => cases hv
    | @closeArray items fs _ ha =>
      rw [feed_closeArray ha hstance hclosers]
      apply arrives_leave
      · exact hseen'
      · exact hclosers
  | closeObject =>
    cases hm with
    | scalar _ hv => cases hv
    | @closeObject members key fs _ ha =>
      rw [feed_closeObject ha hstance hclosers]
      apply arrives_leave
      · exact hseen'
      · exact hclosers
  | comma =>
    have hcomma := hm
    cases hm with
    | scalar _ hv => cases hv
    | commaMember =>
      rw [feed_comma hcomma hstance hclosers]
      exact arrives_reading hseen' rfl hclosers
    | commaItem =>
      rw [feed_comma hcomma hstance hclosers]
      exact arrives_reading hseen' rfl hclosers
  | colon =>
    cases hm with
    | scalar _ hv => cases hv
    | colon =>
      rw [feed_colon hstance]
      exact arrives_reading hseen' rfl hclosers

end Repair

/-! ### Following a document -/

/-- What the scanner knows outside of all containers: before the outermost value nothing, and behind it where it
ends. Its tokens are those passed so far. -/
def Repair.Marks (r : Repair) (front : List Char) (passed : List Token) : Progress → Prop
  | .reading [] awaiting => awaiting = .value ∧ r.checkpoint = none ∧ ∀ c ∈ front, Repair.isBlank c = true
  | .reading (_ :: _) _ => True
  | .done _ => ∃ kept, r.checkpoint = some ⟨kept.reverse, [], true⟩ ∧ tokens kept = passed

/-- Skipping has come to `p` with the tokens `passed`, and with those `ahead` it comes to the end of the document.
The scanner `r` agrees with it behind the text `seen`, in which the next token begins behind `front`. -/
structure Place (front seen : List Char) (passed ahead : List Token) (p : Progress) (r : Repair) : Prop where
  leads : ∃ v, Skims p ahead (.done v) []
  clean : Token.hugeNumber ∉ ahead
  seen : r.seen = seen.reverse
  closers : r.closers = p.stack.map Frame.closer
  marked : r.Marks front passed p

/-- The scanner of unfinished documents has followed the text `seen` of a document, behind which comes `rest`. -/
inductive KeepsUp (seen rest : List Char) (r : Repair) : Prop
  | between {passed : List Token} {p : Progress} : Finds seen .between passed →
      Place seen seen passed (tokens rest) p r → r.stance = p.stance → KeepsUp seen rest r
  | literal {front part : List Char} {s : Scan} {passed found : List Token} {stack : List Frame}
      {awaiting : Awaiting} : seen = front ++ part → Finds front .between passed → Finds part s found →
      InLiteral s found → (∀ c ∈ part, endsLiteral c = false) → (∀ c ∈ part.head?, c ∉ ['{', '[', '"']) →
      part ≠ [] → Place front seen passed (found ++ s.tokens rest) (.reading stack awaiting) r →
      r.stance = .literal part.reverse → KeepsUp seen rest r
  | keyText {front : List Char} {t : TextScan} {phase : Repair.BodyPhase} {escaped : Bool} {passed : List Token}
      {stack : List Frame} {awaiting : Awaiting} : Finds seen (.text t) passed →
      Place front seen passed ((Scan.text t).tokens rest) (.reading stack awaiting) r → awaiting.IsKey →
      TextScan.Fits t.phase phase escaped → r.stance = .keyText escaped → KeepsUp seen rest r
  | valueText {front kept : List Char} {t : TextScan} {phase : Repair.BodyPhase} {escaped : Bool}
      {passed : List Token} {stack : List Frame} {awaiting : Awaiting} : Finds seen (.text t) passed →
      Place front seen passed ((Scan.text t).tokens rest) (.reading stack awaiting) r → awaiting.IsValue →
      TextScan.Fits t.phase phase escaped → r.stance = .valueText escaped phase kept → KeepsUp seen rest r

section Following

variable {front seen rest : List Char} {passed ahead : List Token} {stack : List Frame} {awaiting : Awaiting}
  {p p' : Progress} {r : Repair} {t : Token} {c : Char}

theorem Repair.Marks.due (h : r.Marks front passed p) : p.Due := by
  cases p with
  | done v => exact trivial
  | reading stack awaiting =>
    cases stack with
    | nil => exact h.1
    | cons f fs => exact trivial

/-- A blank between tokens. -/
theorem Repair.Marks.blank (h : r.Marks front passed p) (hc : Repair.isBlank c = true) :
    r.Marks (front ++ [c]) passed p := by
  cases p with
  | done v => exact h
  | reading stack awaiting =>
    cases stack with
    | nil =>
      obtain ⟨ha, hnone, hblank⟩ := h
      refine ⟨ha, hnone, ?_⟩
      intro c' hc'
      rcases List.mem_append.mp hc' with hc' | hc'
      · exact hblank c' hc'
      · obtain rfl := List.mem_singleton.mp hc'
        exact hc
    | cons f fs => exact trivial

theorem place_start {cs : List Char} {v : Value} (h : Skims .start (tokens cs) (.done v) [])
    (hclean : Token.hugeNumber ∉ tokens cs) : Place [] [] [] (tokens cs) .start {} where
  leads := ⟨v, h⟩
  clean := hclean
  seen := rfl
  closers := rfl
  marked := ⟨rfl, rfl, nofun⟩

namespace Place

theorem next (h : Place front seen passed (t :: ahead) p r) :
    ∃ stack awaiting p', p = .reading stack awaiting ∧ Moves stack awaiting (lenient t) p' ∧ t ≠ .hugeNumber ∧
      ∀ {seen' r'}, Repair.Arrives r' seen' p' → tokens seen' = passed ++ [t] →
        Place seen' seen' (passed ++ [t]) ahead p' r' := by
  obtain ⟨v, hleads⟩ := h.leads
  obtain ⟨hne, hclean⟩ := not_or.mp (fun hor => h.clean (List.mem_cons.mpr hor))
  cases hleads with
  | @step stack awaiting _ _ _ p' _ hm hrest =>
    refine ⟨stack, awaiting, p', rfl, hm, fun heq => hne heq.symm, ?_⟩
    intro seen' r' harrives htokens
    refine ⟨⟨v, hrest⟩, hclean, harrives.seen, harrives.closers, ?_⟩
    cases p' with
    | done w => exact ⟨seen', harrives.ended w rfl, htokens⟩
    | reading stack' awaiting' =>
      cases stack' with
      | nil => exact absurd rfl (hm.ne_outside h.marked.due)
      | cons f fs => exact trivial

theorem stay (h : Place front seen passed ahead p r) (c : Char) (stance : Stance) :
    Place front (seen ++ [c]) passed ahead p { r with seen := c :: r.seen, stance := stance } where
  leads := h.leads
  clean := h.clean
  seen := by simp [h.seen]
  closers := h.closers
  marked := h.marked

theorem blank (h : Place seen seen passed ahead p r) (hc : Repair.isBlank c = true) :
    Place (seen ++ [c]) (seen ++ [c]) passed ahead p { r with seen := c :: r.seen } :=
  { h.stay c r.stance with marked := Repair.Marks.blank (h.stay c r.stance).marked hc }

/-! ### A character between tokens -/

theorem feed_mark (h : Place seen seen passed (t :: tokens rest) p r) (hstart : Starts c .between [t])
    (hstance : r.stance = p.stance) (hfinds : Finds (seen ++ [c]) .between (passed ++ [t])) :
    KeepsUp (seen ++ [c]) rest (r.feed c) := by
  obtain ⟨stack, awaiting, p', rfl, hm, -, harrive⟩ := h.next
  have ht : lenient t = t := by cases hstart <;> rfl
  rw [ht] at hm
  have harrives := Repair.arrives_feed hm hstart h.seen hstance h.closers
  exact .between hfinds (harrive harrives (cut_of_between hfinds).tokens_eq) harrives.stance

theorem feed_quote (h : Place seen seen passed ((Scan.text {}).tokens rest) p r) (hstance : r.stance = p.stance)
    (hfinds : Finds (seen ++ ['"']) (.text {}) passed) : KeepsUp (seen ++ ['"']) rest (r.feed '"') := by
  obtain ⟨t, ts, htokens, ht⟩ := Scan.exists_tokens_of_kind? (s := .text {}) rfl rest
  have hnext := h
  rw [htokens] at hnext
  obtain ⟨stack, awaiting, p', rfl, hm, -, -⟩ := hnext.next
  obtain ⟨s, hs⟩ := (hm.isWholeText ht).exists_lenient
  rw [hs] at hm
  rcases hm.isValue_or_isKey with ha | ha
  · rw [Repair.feed_value (hstance.trans (ha.stance stack))]
    exact .valueText hfinds (h.stay '"' _) ha .plain rfl
  · rw [Repair.feed_quote_of_key (hstance.trans (ha.stance stack))]
    exact .keyText hfinds (h.stay '"' _) ha .plain rfl

theorem feed_literal {s : Scan} (h : Place seen seen passed (s.tokens rest) p r) (hstance : r.stance = p.stance)
    (hfinds : Finds seen .between passed) (hc : endsLiteral c = false) (hc' : c ∉ ['{', '[', '"'])
    (hs : InLiteral s []) (hpart : Finds [c] s []) : KeepsUp (seen ++ [c]) rest (r.feed c) := by
  obtain ⟨t, ts, htokens, ht⟩ := hs.exists_token rest
  have hnext := h
  rw [← List.nil_append (s.tokens rest), htokens] at hnext
  obtain ⟨stack, awaiting, p', rfl, hm, -, -⟩ := hnext.next
  obtain ⟨-, ha, -⟩ := hm.wholeLiteral ht
  rw [Repair.feed_value (hstance.trans (ha.stance stack)), Repair.isBlank_of_endsLiteral_eq_false hc,
    if_neg Bool.false_ne_true, Repair.begin_literal hc hc']
  refine .literal rfl hfinds hpart hs ?_ ?_ (List.cons_ne_nil _ _) (h.stay c _) rfl
  · intro c₁ hc₁
    obtain rfl := List.mem_singleton.mp hc₁
    exact hc
  · intro c₁ hc₁
    cases hc₁
    exact hc'

/-- Any character between tokens, or behind a literal that it ends. -/
theorem feed_between (h : Place seen seen passed (tokens (c :: rest)) p r) (hstance : r.stance = p.stance)
    (hfinds : Finds (seen ++ [c]) (Scan.start c).1 (passed ++ (Scan.start c).2))
    (hclear : endsLiteral c = true ∨ Finds seen .between passed) : KeepsUp (seen ++ [c]) rest (r.feed c) := by
  rw [tokens, Scan.tokens, Scan.feed] at h
  have hstart := Scan.starts_start c
  -- A literal begins with a character that does not end one.
  have hliteral {s : Scan} (hc : endsLiteral c = false) (hc' : c ∉ ['{', '[', '"']) (hs : InLiteral s [])
      (hstart : Scan.start c = (s, [])) : KeepsUp (seen ++ [c]) rest (r.feed c) := by
    rw [hstart] at h
    have hclear : Finds seen .between passed := by
      rcases hclear with hclear | hclear
      · rw [hc] at hclear
        cases hclear
      · exact hclear
    have hpart := Finds.nil.feed c
    rw [Scan.feed, hstart] at hpart
    exact h.feed_literal hstance hclear hc hc' hs hpart
  generalize hfound : Scan.start c = found at h hfinds hstart hliteral
  obtain ⟨s, out⟩ := found
  cases hstart with
  | blank hblank =>
    have hblank := Repair.isBlank_of_isBlank hblank
    rw [Repair.feed_blank hstance hblank]
    rw [List.append_nil] at hfinds
    exact .between hfinds (h.blank hblank) hstance
  | openArray => exact h.feed_mark .openArray hstance hfinds
  | closeArray => exact h.feed_mark .closeArray hstance hfinds
  | openObject => exact h.feed_mark .openObject hstance hfinds
  | closeObject => exact h.feed_mark .closeObject hstance hfinds
  | comma => exact h.feed_mark .comma hstance hfinds
  | colon => exact h.feed_mark .colon hstance hfinds
  | text =>
    rw [List.append_nil] at hfinds
    exact h.feed_quote hstance hfinds
  | @word w c rest' hw =>
    obtain ⟨hc, hc', hs⟩ := Scan.inLiteral_of_letters hw
    exact hliteral hc hc' hs rfl
  | numeral hn =>
    obtain ⟨hc, hc'⟩ := NumeralScan.endsLiteral_of_start? hn
    exact hliteral hc hc' .numeral rfl
  -- No token begins here, so the reading that goes on has none to move by.
  | stray =>
    obtain ⟨stack, awaiting, p', rfl, hm, -, -⟩ := h.next
    cases hm with
    | scalar _ hv => cases hv

/-! ### A character inside a token -/

/-- The character behind a word or numeral, or one more of its own. -/
theorem feed_inLiteral {part : List Char} {s : Scan} {found : List Token}
    (h : Place front (front ++ part) passed (found ++ s.tokens (c :: rest)) (.reading stack awaiting) r)
    (hfront : Finds front .between passed) (hpart : Finds part s found) (hs : InLiteral s found)
    (hends : ∀ c ∈ part, endsLiteral c = false) (hhead : ∀ c ∈ part.head?, c ∉ ['{', '[', '"'])
    (hnone : part ≠ []) (hstance : r.stance = .literal part.reverse) :
    KeepsUp (front ++ part ++ [c]) rest (r.feed c) := by
  obtain ⟨v, hleads⟩ := h.leads
  cases hc : endsLiteral c with
  | false =>
    have hs' := hs.feed hc hleads.literalStands
    have hchars : c :: part.reverse = (part ++ [c]).reverse := by simp
    rw [Repair.feed_literal_more hstance hc, hchars]
    rw [Scan.tokens, ← List.append_assoc] at h
    have hmore : part ++ [c] ≠ [] := List.append_ne_nil_of_right_ne_nil _ (List.cons_ne_nil _ _)
    refine .literal (List.append_assoc _ _ _) hfront (hpart.feed c) hs' ?_ ?_ hmore (h.stay c _) rfl
    · intro c' hc'
      rcases List.mem_append.mp hc' with hc' | hc'
      · exact hends c' hc'
      · obtain rfl := List.mem_singleton.mp hc'
        exact hc
    · rw [List.head?_append_of_ne_nil _ hnone]
      exact hhead
  | true =>
    obtain ⟨t, ht, hended⟩ := hs.ends hc hleads.literalStands
    rw [hended.tokens fun c' hc' => by cases hc'; exact hc] at h
    obtain ⟨stack', awaiting', p', hp, hm, hclean, harrive⟩ := h.next
    cases hp
    obtain ⟨hwhole, -, u, rfl⟩ := hm.wholeLiteral ht
    have hcut : Cut (front ++ part) (passed ++ [t]) := cut_of_endsAs hfront hpart hended
    have hliteral : Repair.isLiteral part.reverse.reverse = true := by
      obtain ⟨w, hw⟩ := hwhole.exists_value? hclean
      rw [List.reverse_reverse]
      exact Repair.isLiteral_of_tokens (hpart.tokens_eq.trans hended.finish) hw
    -- The scanner goes on as if it had met the end of the literal before.
    have harrives := Repair.arrives_complete h.seen h.closers u
    rw [Repair.feed_literal hstance hc hliteral]
    have hfinds := (hfront.append hpart).feed c
    obtain ⟨hstart, hfound⟩ := hended.feed c hc
    rw [hstart, List.append_assoc passed, hfound, List.append_cons passed] at hfinds
    exact (harrive harrives hcut.tokens_eq).feed_between harrives.stance hfinds (Or.inl hc)

/-- The next character of a string completes it, and then its token can be seen as that of a text, or it does
not. -/
theorem text_cases {t : TextScan} {phase : Repair.BodyPhase} {escaped : Bool}
    (h : Place front seen passed ((Scan.text t).tokens (c :: rest)) (.reading stack awaiting) r)
    (hfinds : Finds seen (.text t) passed) (hfits : TextScan.Fits t.phase phase escaped) :
    (c = '"' ∧ escaped = false ∧ ∃ s p', Moves stack awaiting (.text s) p' ∧
      ∀ r' : Repair, r'.Arrives (seen ++ [c]) p' → KeepsUp (seen ++ [c]) rest r') ∨
    (¬(c = '"' ∧ escaped = false) ∧ ∃ t', Finds (seen ++ [c]) (.text t') passed ∧
      TextScan.Fits t'.phase (phase.feed c) (!escaped && c = '\\') ∧
      Place front seen passed ((Scan.text t').tokens rest) (.reading stack awaiting) r) := by
  obtain ⟨tok, ts, htext, htok⟩ := Scan.exists_tokens_of_kind? (s := .text t) rfl (c :: rest)
  have hnext := h
  rw [htext] at hnext
  obtain ⟨stack', awaiting', p', hp, hm, -, -⟩ := hnext.next
  cases hp
  -- a move took the token, so the string ends well and its faults are among those that skipping lets pass
  have hwhole : tok.IsWholeText := hm.isWholeText htok
  have hfinds' := hfinds.feed c
  rw [Scan.tokens] at h
  rcases TextScan.feed_of_tokens htext hwhole with ⟨rfl, hphase, -, hfeed⟩ | ⟨t', hfeed, htext'⟩
  · left
    obtain ⟨s, hs⟩ := hwhole.exists_lenient
    rw [hfeed] at h hfinds'
    obtain ⟨stack', awaiting', p', hp, hm, -, harrive⟩ := Place.next h
    cases hp
    refine ⟨rfl, hfits.not_escaped hphase, s, p', hs ▸ hm, ?_⟩
    intro r' harrives
    exact .between hfinds' (harrive harrives (cut_of_between hfinds').tokens_eq) harrives.stance
  · right
    obtain ⟨hquote, hfits'⟩ := TextScan.fits_feed hfits hfeed htext' hwhole
    rw [TextScan.scan_feed hfeed] at h hfinds'
    rw [List.append_nil] at hfinds'
    exact ⟨hquote, t', hfinds', hfits', h⟩

theorem feed_keyText {t : TextScan} {phase : Repair.BodyPhase} {escaped : Bool}
    (h : Place front seen passed ((Scan.text t).tokens (c :: rest)) (.reading stack awaiting) r)
    (hfinds : Finds seen (.text t) passed) (ha : awaiting.IsKey) (hfits : TextScan.Fits t.phase phase escaped)
    (hstance : r.stance = .keyText escaped) : KeepsUp (seen ++ [c]) rest (r.feed c) := by
  rcases h.text_cases hfinds hfits with ⟨rfl, rfl, s, p', hm, hends⟩ | ⟨hquote, t', hfinds', hfits', h'⟩
  · obtain ⟨members, key, fs, rfl, rfl⟩ := hm.exists_key ha
    apply hends
    rw [Repair.feed_quote_of_keyText hstance]
    apply Repair.arrives_reading
    · simp [h.seen]
    · rfl
    · exact h.closers
  · rw [Repair.feed_keyText hstance hquote]
    exact .keyText hfinds' (h'.stay c _) ha hfits' rfl

theorem feed_valueText {t : TextScan} {phase : Repair.BodyPhase} {escaped : Bool} {kept : List Char}
    (h : Place front seen passed ((Scan.text t).tokens (c :: rest)) (.reading stack awaiting) r)
    (hfinds : Finds seen (.text t) passed) (ha : awaiting.IsValue) (hfits : TextScan.Fits t.phase phase escaped)
    (hstance : r.stance = .valueText escaped phase kept) : KeepsUp (seen ++ [c]) rest (r.feed c) := by
  rcases h.text_cases hfinds hfits with ⟨rfl, rfl, s, p', hm, hends⟩ | ⟨hquote, t', hfinds', hfits', h'⟩
  · obtain rfl := hm.eq_supply ha rfl
    apply hends
    rw [Repair.feed_quote_of_valueText hstance]
    apply Repair.arrives_complete
    · simp [h.seen]
    · exact h.closers
  · rw [Repair.feed_valueText hstance hquote]
    exact .valueText hfinds' (h'.stay c _) ha hfits' rfl

end Place

/-- The scanner keeps up with the document from character to character. -/
theorem KeepsUp.feed (h : KeepsUp seen (c :: rest) r) : KeepsUp (seen ++ [c]) rest (r.feed c) := by
  cases h with
  | between hfinds hplace hstance => exact hplace.feed_between hstance (hfinds.feed c) (Or.inr hfinds)
  | literal hseen hfront hpart hs hends hhead hnone hplace hstance =>
    subst hseen
    exact hplace.feed_inLiteral hfront hpart hs hends hhead hnone hstance
  | keyText hfinds hplace ha hfits hstance => exact hplace.feed_keyText hfinds ha hfits hstance
  | valueText hfinds hplace ha hfits hstance => exact hplace.feed_valueText hfinds ha hfits hstance

theorem KeepsUp.foldl_feed {more : List Char} (h : KeepsUp seen (more ++ rest) r) :
    KeepsUp (seen ++ more) rest (more.foldl Repair.feed r) := by
  induction more generalizing seen r with
  | nil =>
    rw [List.append_nil]
    exact h
  | cons c more ih =>
    have hmore := ih h.feed
    rwa [List.append_assoc] at hmore

end Following

/-! ### At the end of a document -/

section End

variable {cs : List Char} {v : Value} {r : Repair}

/-- A string is not left open at the end of a document. -/
theorem Place.not_in_text {front seen : List Char} {t : TextScan} {passed : List Token} {stack : List Frame}
    {awaiting : Awaiting} (h : Place front seen passed ((Scan.text t).tokens []) (.reading stack awaiting) r) :
    False := by
  obtain ⟨stack', awaiting', p', -, hm, -, -⟩ := Place.next h
  exact t.not_isWholeText_brokenToken _ (hm.isWholeText (t.kind?_brokenToken _))

/-- At the end of a document all of it is kept but blanks, or it is a word or numeral that might go on. -/
theorem KeepsUp.repaired (h : KeepsUp cs [] r) :
    (∃ kept, r.repaired = some ⟨kept, []⟩ ∧ tokens kept = tokens cs) ∨ Repair.isBare cs = true := by
  cases h with
  | @between passed p hfinds hplace hstance =>
    left
    obtain ⟨v, hleads⟩ := hplace.leads
    cases hleads
    obtain ⟨kept, hcheckpoint, hkept⟩ := hplace.marked
    refine ⟨kept, ?_, hkept.trans (cut_of_between hfinds).tokens_eq.symm⟩
    rw [Repair.repaired, hstance, hcheckpoint]
    simp [Progress.stance]
  | @literal front part s passed found stack awaiting hseen hfront hpart hs hends hhead hnone hplace hstance =>
    right
    obtain ⟨t, hfinish, ht⟩ := hs.exists_finish
    obtain ⟨v, hleads⟩ := hplace.leads
    rw [Scan.tokens, hfinish] at hleads
    cases hleads with
    | step hm hrest =>
      obtain ⟨-, -, u, rfl⟩ := hm.wholeLiteral ht
      -- One token leads to the end, so no container is open.
      obtain rfl : stack = [] := by
        generalize hp : supply u stack = p at hrest
        cases hrest
        cases stack with
        | nil => rfl
        | cons f fs => cases f <;> cases hp
      obtain ⟨-, -, hblank⟩ := hplace.marked
      rw [hseen]
      exact Repair.isBare_append hblank hends hhead
  | keyText _ hplace => exact hplace.not_in_text.elim
  | valueText _ hplace => exact hplace.not_in_text.elim

/-- Of a document that can be skipped everything is kept, unless it is a word or numeral that might go on. -/
theorem repaired_of_skims (h : Skims .start (tokens cs) (.done v) []) (hclean : Token.hugeNumber ∉ tokens cs)
    (hbare : Repair.isBare cs = false) :
    ∃ kept, (Repair.scan cs).repaired = some ⟨kept, []⟩ ∧ tokens kept = tokens cs := by
  have hkeeps : KeepsUp [] (cs ++ []) {} := by
    rw [List.append_nil]
    exact .between .nil (place_start h hclean) rfl
  rcases hkeeps.foldl_feed.repaired with hkept | hbare'
  · exact hkept
  · rw [List.nil_append, hbare] at hbare'
    cases hbare'

end End

end GuidedDecoding.Json
