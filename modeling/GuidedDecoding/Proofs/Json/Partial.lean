import GuidedDecoding.Proofs.Json.Repair

/-!
# What can be read of a document that is being written

`repair_truncates` says what becomes of the value of a document when only a beginning of it has been written:
what can be read then is that value cut short, and nothing is lost that this beginning holds in full.

A value of the document is named by its path and by the number of tokens in front of it (`Value.at?`). So it
is in the beginning if as many tokens begin there (`begun`), and there in full if its last token ends there
(`FullIn`). Of the tokens that have been passed, those behind the checkpoint are separators and keys, which
neither begin a container nor end a value (`Value.not_quiet`).
-/

namespace GuidedDecoding.Json

open Progress
open Repair (Checkpoint endsLiteral)
open Scan (Finds)

/-! ### Kinds of values -/

namespace Value

def isLiteral : Value → Bool
  | .null | .bool _ | .number _ => true
  | .text _ | .array _ | .object _ => false

def isContainer : Value → Bool
  | .array _ | .object _ => true
  | .null | .bool _ | .number _ | .text _ => false

/-- A text holds in full a value that has `i` tokens in front of it: its last token ends there. Where a
literal ends shows only in the character behind it, so one that ends literals must follow its begin. -/
def FullIn (cs : List Char) (i : Nat) (u : Value) : Prop :=
  if u.isLiteral then ∃ front c, front ++ [c] <+: cs ∧ endsLiteral c = true ∧ i < begun front
  else i + u.spelling.length ≤ ended cs

end Value

theorem exists_separateRest_eq (close : Token) (xs : List (List Token)) :
    ∃ front, separateRest close xs = front ++ [close] := by
  induction xs with
  | nil => exact ⟨[], rfl⟩
  | cons x xs ih =>
    obtain ⟨front, h⟩ := ih
    exact ⟨.comma :: (x ++ front), by rw [separateRest, h]; simp⟩

theorem exists_separate_eq (close : Token) (xs : List (List Token)) :
    ∃ front, separate close xs = front ++ [close] := by
  cases xs with
  | nil => exact ⟨[], rfl⟩
  | cons x xs =>
    obtain ⟨front, h⟩ := exists_separateRest_eq close xs
    exact ⟨x ++ front, by rw [separate, h]; simp⟩

namespace Value

variable {v u : Value} {path : List Nat} {i : Nat}

/-- A container is written between brackets, and every other value is one token. -/
theorem spelling_cases (u : Value) :
    (u.isContainer = false ∧ ∃ t, u.spelling = [t] ∧ t.value? = some u) ∨
      (u.isContainer = true ∧ ∃ t front t', u.spelling = t :: (front ++ [t']) ∧
        (t = .openArray ∧ t' = .closeArray ∨ t = .openObject ∧ t' = .closeObject)) := by
  cases u with
  | null => exact Or.inl ⟨rfl, _, rfl, rfl⟩
  | bool b => cases b <;> exact Or.inl ⟨rfl, _, rfl, rfl⟩
  | number n => exact Or.inl ⟨rfl, _, rfl, rfl⟩
  | text s => exact Or.inl ⟨rfl, _, rfl, rfl⟩
  | array items =>
    obtain ⟨front, h⟩ := exists_separate_eq .closeArray (items.map spelling)
    exact Or.inr ⟨rfl, _, front, _, by rw [spelling_array, h], Or.inl ⟨rfl, rfl⟩⟩
  | object members =>
    obtain ⟨front, h⟩ := exists_separate_eq .closeObject (members.map memberSpelling)
    exact Or.inr ⟨rfl, _, front, _, by rw [spelling_object, h], Or.inr ⟨rfl, rfl⟩⟩

theorem isLiteral_of_value? {t : Token} (h : t.value? = some u) : u.isLiteral = t.isLiteral := by
  unfold Token.value? at h
  split at h <;> cases h <;> rfl

theorem isContainer_of_isLiteral (hu : u.isLiteral = true) : u.isContainer = false := by
  cases u <;> first | rfl | cases hu

/-- No value is spelled without tokens. -/
theorem length_spelling_pos (u : Value) : 0 < u.spelling.length := by
  obtain ⟨t, rest, hu, -⟩ := u.exists_spelling
  rw [hu]
  exact Nat.succ_pos _

/-- All but a container is a single token. -/
theorem length_spelling_of_not_container (hu : u.isContainer = false) : u.spelling.length = 1 := by
  rcases u.spelling_cases with ⟨-, t, hspelling, -⟩ | ⟨hu', -⟩
  · rw [hspelling]
    rfl
  · rw [hu] at hu'
    cases hu'

/-- The first token of a value. -/
theorem getElem?_first (h : v.at? path = some (i, u)) :
    ∃ t, v.spelling[i]? = some t ∧ (u.isContainer = true → t = .openArray ∨ t = .openObject) ∧
      (u.isContainer = false → t.value? = some u) := by
  have hfirst := getElem?_at h u.length_spelling_pos
  rw [Nat.add_zero] at hfirst
  rcases u.spelling_cases with ⟨hu, t, hspelling, ht⟩ | ⟨hu, t, front, t', hspelling, ht⟩
  · rw [hspelling] at hfirst
    exact ⟨t, hfirst, fun h => absurd (hu.symm.trans h) (by decide), fun _ => ht⟩
  · rw [hspelling] at hfirst
    exact ⟨t, hfirst, fun _ => ht.imp And.left And.left, fun h => absurd (hu.symm.trans h) (by decide)⟩

/-- The last token of a value. -/
theorem getElem?_last (h : v.at? path = some (i, u)) :
    ∃ t, v.spelling[i + u.spelling.length - 1]? = some t ∧
      (u.isContainer = true → t = .closeArray ∨ t = .closeObject) ∧ (u.isContainer = false → t.value? = some u) := by
  have hpos := u.length_spelling_pos
  have hlast := getElem?_at h (Nat.sub_one_lt (Nat.ne_of_gt hpos))
  rw [← Nat.add_sub_assoc hpos] at hlast
  rcases u.spelling_cases with ⟨hu, t, hspelling, ht⟩ | ⟨hu, t, front, t', hspelling, ht⟩
  · refine ⟨t, ?_, fun h => absurd (hu.symm.trans h) (by decide), fun _ => ht⟩
    rw [hlast, hspelling]
    rfl
  · refine ⟨t', ?_, fun _ => ht.imp And.right And.right, fun h => absurd (hu.symm.trans h) (by decide)⟩
    rw [hlast, hspelling]
    simp

/-- The last token of a value is not quiet. -/
theorem not_quiet_of_value? (h : v.at? path = some (i, u)) {t : Token} (ht : t.value? = some u)
    (hi : v.spelling[i + u.spelling.length - 1]? = some t) : ¬Quiet v.spelling (i + u.spelling.length - 1) := by
  rintro (hcomma | hcolon | ⟨s, -, hnext⟩)
  · rw [hi] at hcomma
    cases hcomma
    cases ht
  · rw [hi] at hcolon
    cases hcolon
    cases ht
  · have hpos := u.length_spelling_pos
    rw [show i + u.spelling.length - 1 + 1 = i + u.spelling.length by omega] at hnext
    rcases getElem?_behind h hnext with h | h | h <;> cases h

theorem not_quiet_of_eq {t : Token} {j : Nat} (hj : v.spelling[j]? = some t) (hcomma : t ≠ .comma)
    (hcolon : t ≠ .colon) (htext : ∀ s, t ≠ .text s) : ¬Quiet v.spelling j := by
  rintro (h | h | ⟨s, h, -⟩)
  · exact hcomma (Option.some.inj (hj.symm.trans h))
  · exact hcolon (Option.some.inj (hj.symm.trans h))
  · exact htext s (Option.some.inj (hj.symm.trans h))

/-- Neither the first nor the last token of a value is a separator or a key. -/
theorem not_quiet (h : v.at? path = some (i, u)) :
    ¬Quiet v.spelling i ∧ ¬Quiet v.spelling (i + u.spelling.length - 1) := by
  obtain ⟨t, hfirst, ht, -⟩ := getElem?_first h
  obtain ⟨t', hlast, ht', hvalue⟩ := getElem?_last h
  cases hu : u.isContainer with
  | true =>
    constructor
    · rcases ht hu with rfl | rfl <;> exact not_quiet_of_eq hfirst nofun nofun nofun
    · rcases ht' hu with rfl | rfl <;> exact not_quiet_of_eq hlast nofun nofun nofun
  | false =>
    -- A value without brackets is its only token.
    have hquiet := not_quiet_of_value? h (hvalue hu) hlast
    refine ⟨?_, hquiet⟩
    rwa [length_spelling_of_not_container hu] at hquiet

end Value

/-! ### How much of a document has been passed -/

/-- The scanner has passed `n` tokens of the document within some characters. It may be in another token, and of
a literal it has passed nothing until a character ends it. -/
inductive Passes (all : List Token) (cs : List Char) (n : Nat) : Prop
  | between : ended cs = n → begun cs = n → Passes all cs n
  | text {s : String} : ended cs = n → begun cs = n + 1 → all[n]? = some (.text s) → Passes all cs n
  | literal {front part : List Char} {t : Token} : cs = front ++ part → begun front = n → begun cs ≤ n + 1 →
      (∀ c ∈ part, endsLiteral c = false) → all[n]? = some t → t.isLiteral = true → Passes all cs n

namespace Passes

variable {v u : Value} {path : List Nat} {i n : Nat} {cs : List Char}

/-- A container that has been opened has been passed. -/
theorem of_container (h : Passes v.spelling cs n) (hat : v.at? path = some (i, u)) (hu : u.isContainer = true)
    (hi : i < begun cs) : i < n := by
  obtain ⟨t, hfirst, ht, -⟩ := Value.getElem?_first hat
  have hkind : t.kind? = none := by
    rcases ht hu with rfl | rfl <;> rfl
  cases h with
  | between _ hbegun => exact hbegun ▸ hi
  | text _ hbegun htext =>
    rw [hbegun] at hi
    refine Nat.lt_of_le_of_ne (Nat.le_of_lt_succ hi) ?_
    rintro rfl
    rw [hfirst] at htext
    cases htext
    cases hkind
  | literal _ _ hbegun _ ht' hliteral =>
    refine Nat.lt_of_le_of_ne (Nat.le_of_lt_succ (Nat.lt_of_lt_of_le hi hbegun)) ?_
    rintro rfl
    rw [hfirst] at ht'
    cases ht'
    rw [Token.isLiteral, hkind] at hliteral
    cases hliteral

/-- A literal behind which there is a character that ends it has been passed. -/
theorem of_ends (h : Passes v.spelling cs n) (hat : v.at? path = some (i, u)) (hu : u.isLiteral = true)
    {front' : List Char} {c : Char} (hfront' : front' ++ [c] <+: cs) (hc : endsLiteral c = true)
    (hi : i < begun front') : i < n := by
  have hbegun : ∀ {cs}, front' ++ [c] <+: cs → begun front' ≤ begun cs := by
    rintro cs ⟨more, rfl⟩
    exact Nat.le_trans (begun_le_append front' [c]) (begun_le_append _ more)
  cases h with
  | between _ hn => exact hn ▸ Nat.lt_of_lt_of_le hi (hbegun hfront')
  | text _ hn htext =>
    have hlt : i < n + 1 := hn ▸ Nat.lt_of_lt_of_le hi (hbegun hfront')
    refine Nat.lt_of_le_of_ne (Nat.le_of_lt_succ hlt) ?_
    rintro rfl
    -- The string that has been begun is no literal.
    obtain ⟨t, hfirst, -, ht⟩ := Value.getElem?_first hat
    rw [hfirst] at htext
    cases htext
    rw [Value.isLiteral_of_value? (ht (Value.isContainer_of_isLiteral hu))] at hu
    cases hu
  | @literal front part _ hcs hn _ hends _ _ =>
    subst hcs
    -- What ends the literal comes before the literal that has been begun.
    have hbefore : front' ++ [c] <+: front := by
      refine List.prefix_of_prefix_length_le hfront' (List.prefix_append front part) ?_
      by_contra hlength
      rw [List.length_append, List.length_singleton] at hlength
      obtain ⟨more, hmore⟩ := hfront'
      have hget : part[front'.length - front.length]? = some c := by
        rw [← List.getElem?_append_right (by omega), ← hmore]
        simp
      rw [hends c (List.mem_of_getElem? hget)] at hc
      cases hc
    exact hn ▸ Nat.lt_of_lt_of_le hi (hbegun hbefore)

/-- Any other value whose last token has ended has been passed. -/
theorem of_ended (h : Passes v.spelling cs n) (hat : v.at? path = some (i, u)) (hu : u.isLiteral = false)
    (hended : i + u.spelling.length ≤ ended cs) : i + u.spelling.length ≤ n := by
  cases h with
  | between hn _ => exact hn ▸ hended
  | text hn _ _ => exact hn ▸ hended
  | literal _ _ hbegun _ ht hliteral =>
    have hle := Nat.le_trans hended (Nat.le_trans (ended_le_begun cs) hbegun)
    refine Nat.le_of_lt_succ (Nat.lt_of_le_of_ne hle ?_)
    intro hn
    -- The last token of the value is no literal.
    obtain ⟨t', hlast, hcontainer, hvalue⟩ := Value.getElem?_last hat
    rw [hn, Nat.succ_sub_one, ht] at hlast
    cases hlast
    cases hu' : u.isContainer with
    | true => rcases hcontainer hu' with rfl | rfl <;> cases hliteral
    | false =>
      rw [← Value.isLiteral_of_value? (hvalue hu'), hu] at hliteral
      cases hliteral

/-- A value that is there in full has been passed. -/
theorem of_fullIn (h : Passes v.spelling cs n) (hat : v.at? path = some (i, u)) (hfull : u.FullIn cs i) :
    i + u.spelling.length ≤ n := by
  unfold Value.FullIn at hfull
  split at hfull
  · next hu =>
    obtain ⟨front, c, hfront, hc, hi⟩ := hfull
    rw [Value.length_spelling_of_not_container (Value.isContainer_of_isLiteral hu)]
    exact h.of_ends hat hu hfront hc hi
  · next hu => exact h.of_ended hat (Bool.not_eq_true _ ▸ hu) hfull

end Passes

/-! ### The repaired text -/

/-- What is closed at a checkpoint has the tokens so far and the closing ones. -/
theorem Repair.Checkpoint.At.tokens_closed {m : Checkpoint} {ts : List Token} {p : Progress} (h : m.At ts p) :
    tokens (m.kept.reverse ++ m.closers) = ts ++ p.stack.map Frame.closeToken := by
  have hends : ∀ c ∈ m.closers.head?, endsLiteral c = true := by
    rw [h.closers]
    cases p.stack with
    | nil => exact fun _ h => nomatch h
    | cons f fs =>
      intro c hc
      cases hc
      cases f <;> rfl
  rw [h.cut m.closers hends, h.closers, tokens_closers]

section Tracks

variable {all : List Token} {v w : Value} {seen rest : List Char} {r : Repair} {n : Nat} {d : Repaired}

/-- The text does not end inside a string value. So what is repaired is what was there at the checkpoint. -/
structure Rests (all : List Token) (seen : List Char) (n : Nat) (r : Repair) : Prop where
  passes : Passes all seen n
  marked : Marked all n r.started r.checkpoint
  stance : ∀ escaped phase kept, r.stance ≠ .valueText escaped phase kept
  key : ∀ s, all[n]? = some (.text s) → n < begun seen → Quiet all n

/-- The text ends inside the string value `s`, of which the repaired one has the token `t`. -/
structure InText (all : List Token) (v : Value) (seen : List Char) (d : Repaired) (passed ahead : List Token)
    (s : String) (t : Token) (stack : List Frame) : Prop where
  passes : Passes all seen passed.length
  split : all = passed ++ .text s :: ahead
  reached : ∃ awaiting, awaiting.IsValue ∧ Runs .start passed (.reading stack awaiting)
  leads : Runs (supply (.text s) stack) ahead (.done v)
  kind : t.kind? = some .text
  content : ∀ s', t = .text s' → s'.toList <+: s.toList
  repaired : tokens (d.kept ++ d.closing) = passed ++ t :: stack.map Frame.closeToken

/-- What has been found has ended. -/
theorem ended_of_finds {cs : List Char} {s : Scan} {ts : List Token} (h : Finds cs s ts) : ended cs = ts.length := by
  rw [ended, h.emitted]

theorem begun_of_finds {cs : List Char} {s : Scan} {ts : List Token} (h : Finds cs s ts) :
    begun cs = ts.length + s.kind?.isSome.toNat := by
  rw [begun, ended_of_finds h, h.after]

/-- The rest of a string goes on from what is kept of it. -/
theorem Stage.content_kept {t t' : TextScan} {kept : List Char} {passed : List Token} {p : Progress}
    (h : Stage (tokens (seen ++ rest)) v seen passed ((Scan.text t).tokens rest) p r)
    (hkept : kept.reverse <+: seen) (hfinds' : Finds kept.reverse (.text t') passed) :
    ∃ k s ts, t'.content = .ok k ∧ (Scan.text t).tokens rest = .text s :: ts ∧ k.reverse <+: s.toList := by
  obtain ⟨s, ts, htext⟩ := h.exists_text
  obtain ⟨tail, rfl⟩ := hkept
  have htail : (Scan.text t').tokens (tail ++ rest) = .text s :: ts := by
    have hsplit := h.split
    rw [htext, List.append_assoc, hfinds'.tokens_append] at hsplit
    exact List.append_cancel_left hsplit
  obtain ⟨k, hk, hks⟩ := TextScan.content_of_tokens htail
  exact ⟨k, s, ts, hk, htext, hks⟩

/-- What is repaired inside a string value has of it what is kept. -/
theorem Stage.inText {t t' : TextScan} {phase : Repair.BodyPhase} {escaped : Bool} {kept : List Char}
    {passed : List Token} {stack : List Frame} {awaiting : Awaiting}
    (h : Stage (tokens (seen ++ rest)) v seen passed ((Scan.text t).tokens rest) (.reading stack awaiting) r)
    (hfinds : Finds seen (.text t) passed) (ha : awaiting.IsValue) (hkept : kept.reverse <+: seen)
    (hfinds' : Finds kept.reverse (.text t') passed) (hplain : t'.phase = .plain)
    (hstance : r.stance = .valueText escaped phase kept) :
    ∃ d ahead s k, r.repaired = some d ∧ Finds d.kept (.text t') passed ∧ t'.content = .ok k ∧
      InText (tokens (seen ++ rest)) v seen d passed ahead s t'.token stack := by
  obtain ⟨k, s, ts, hk, htext, hks⟩ := h.content_kept hkept hfinds'
  have hnext := h
  rw [htext] at hnext
  refine ⟨⟨kept.reverse, '"' :: r.closers⟩, ts, s, k, ?_, hfinds', hk, ?_⟩
  · rw [Repair.repaired, hstance]
  refine ⟨.text (ended_of_finds hfinds) (begun_of_finds hfinds) hnext.getElem?_next, hnext.split,
    ⟨awaiting, ha, h.reached⟩, (hnext.next_of_isValue ha).2, t'.kind?_token, ?_, ?_⟩
  · intro s' hs'
    obtain ⟨k', hk', hs'⟩ := TextScan.content_of_token hs'
    rw [hk] at hk'
    cases hk'
    rw [hs']
    exact hks
  · -- The quote that is put behind it ends the string, and then the brackets are tokens of their own.
    have hquote : (Scan.text t').feed '"' = (.between, [t'.token]) := by
      simp [Scan.feed, TextScan.feed, hplain]
    have hclosers : r.closers = stack.map Frame.closer := h.closers
    show tokens (kept.reverse ++ '"' :: r.closers) = _
    rw [hfinds'.tokens_append, Scan.tokens, hquote, hclosers]
    show passed ++ ([t'.token] ++ tokens (stack.map Frame.closer)) = _
    rw [tokens_closers]
    rfl

/-- A text that the scanner follows rests at a checkpoint, or it ends inside a string value. -/
theorem Tracks.rests_or_inText (h : Tracks (tokens (seen ++ rest)) v seen rest r) :
    (∃ n, Rests (tokens (seen ++ rest)) seen n r) ∨
      ∃ d passed ahead s t k stack, r.repaired = some d ∧ Finds d.kept (.text t) passed ∧ t.content = .ok k ∧
        InText (tokens (seen ++ rest)) v seen d passed ahead s t.token stack := by
  cases h with
  | @between passed p hfinds hstage hstance =>
    -- In the first three cases the checkpoint stands, as the scanner is in no string value. Each of them
    -- says which token may have begun without having ended.
    refine Or.inl ⟨passed.length, .between (ended_of_finds hfinds) (begun_of_finds hfinds), hstage.marked, ?_, ?_⟩
    · intro escaped phase kept h
      rw [hstance] at h
      cases p with
      | done v => cases h
      | reading stack awaiting => cases awaiting <;> cases h
    · intro s _ hlt
      rw [begun_of_finds hfinds] at hlt
      exact absurd hlt (Nat.lt_irrefl _)
  | @literal front part s passed found stack awaiting hseen hfront hpart hs hends hstage ha hstance =>
    obtain ⟨t, ts, htokens, ht⟩ := hs.exists_token rest
    rw [htokens] at hstage
    refine Or.inl ⟨passed.length, .literal hseen (begun_of_finds hfront) ?_ hends hstage.getElem?_next ht,
      hstage.marked, ?_, ?_⟩
    · rw [hseen, begun_of_finds (hfront.append hpart), List.length_append]
      cases hs <;> exact Nat.le_refl _
    · intro escaped phase kept h
      rw [hstance] at h
      cases h
    · intro s hs _
      rw [hstage.getElem?_next] at hs
      cases hs
      cases ht
  | @keyText t phase escaped passed stack awaiting hfinds hstage ha hfits hstance =>
    obtain ⟨s, ts, htext⟩ := hstage.exists_text
    rw [htext] at hstage
    refine Or.inl ⟨passed.length,
      .text (ended_of_finds hfinds) (begun_of_finds hfinds) hstage.getElem?_next, hstage.marked, ?_, ?_⟩
    · intro escaped phase kept h
      rw [hstance] at h
      cases h
    · intro _ _ _
      exact hstage.quiet_of_isKey ha
  | @valueText t t' phase escaped kept passed stack awaiting hfinds hstage ha hfits hkept hfinds' hplain hstance =>
    obtain ⟨d, ahead, s, k, hin⟩ := hstage.inText hfinds ha hkept hfinds' hplain hstance
    exact Or.inr ⟨d, passed, ahead, s, t', k, stack, hin⟩

/-- At rest the repaired text is that of the checkpoint. -/
theorem Rests.repaired_eq (h : Rests all seen n r) :
    r.repaired = match r.checkpoint with
      | some m => if m.started then some ⟨m.kept.reverse, m.closers⟩ else none
      | none => none := by
  unfold Repair.repaired
  split
  · next hstance => exact absurd hstance (h.stance _ _ _)
  · rfl

/-- What is repaired is what was there at the checkpoint, behind which only separators and keys have been
passed. -/
theorem Rests.exists_of_some (h : Rests all seen n r) (hd : r.repaired = some d) :
    ∃ m ts p, d = ⟨m.kept.reverse, m.closers⟩ ∧ Checkpoint.At m ts p ∧ ts <+: all ∧
      ∀ j, ts.length ≤ j → j < n → Quiet all j := by
  rw [h.repaired_eq] at hd
  have hmarked := h.marked
  generalize r.checkpoint = m? at hd hmarked
  cases hmarked with
  | none => cases hd
  | @some m ts p hat hstarted hall hle hquiet hfirst =>
    dsimp only at hd
    split at hd
    · cases hd
      exact ⟨m, ts, p, rfl, hat, hall, hquiet⟩
    · cases hd

/-- Where nothing is repaired, no more than an opening bracket and keys have been passed. -/
theorem Rests.of_none (h : Rests all seen n r) (hd : r.repaired = none) {j : Nat} (hj : j < n)
    (hquiet : ¬Quiet all j) : j = 0 ∧ ∃ t, all[0]? = some t ∧ t.value? = none := by
  rw [h.repaired_eq] at hd
  have hmarked := h.marked
  generalize r.checkpoint = m? at hd hmarked
  cases hmarked with
  | none _ hn =>
    rw [hn] at hj
    exact absurd hj (Nat.not_lt_zero j)
  | @some m ts p hat hstarted hall hle hbetween hfirst =>
    dsimp only at hd
    split at hd
    · cases hd
    · next hnot =>
      obtain ⟨t, rfl, ht⟩ := hfirst (by rw [← hstarted]; simpa using hnot)
      have hlt : j < 1 := Nat.lt_of_not_le fun hle => hquiet (hbetween j hle hj)
      obtain ⟨more, rfl⟩ := hall
      exact ⟨Nat.lt_one_iff.mp hlt, t, rfl, ht⟩

/-- The repaired text begins with the same tokens as the document, and as many as have been passed but for
separators and keys. -/
theorem Tracks.agree (h : Tracks (tokens (seen ++ rest)) v seen rest r) (hd : r.repaired = some d) :
    ∃ n k, Passes (tokens (seen ++ rest)) seen n ∧
      (tokens (d.kept ++ d.closing)).take k = (tokens (seen ++ rest)).take k ∧
      ∀ j, k ≤ j → j < n → Quiet (tokens (seen ++ rest)) j := by
  rcases h.rests_or_inText with ⟨n, hrests⟩ | ⟨d', passed, ahead, s, t, k, stack, hd', -, -, hin⟩
  · obtain ⟨m, ts, p, rfl, hat, ⟨more, hmore⟩, hquiet⟩ := hrests.exists_of_some hd
    refine ⟨n, ts.length, hrests.passes, ?_, hquiet⟩
    rw [hat.tokens_closed, ← hmore, List.take_left, List.take_left]
  · obtain rfl : d' = d := Option.some.inj (hd'.symm.trans hd)
    refine ⟨passed.length, passed.length, hin.passes, ?_, fun j hj hlt => absurd hlt (Nat.not_lt.mpr hj)⟩
    rw [hin.repaired, hin.split, List.take_left, List.take_left]

/-- The tokens of a value that the text holds in full are kept. -/
theorem Tracks.take_of_fullIn {u : Value} {path : List Nat} {i : Nat} (hall : tokens (seen ++ rest) = v.spelling)
    (h : Tracks (tokens (seen ++ rest)) v seen rest r) (hd : r.repaired = some d) (hat : v.at? path = some (i, u))
    (hfull : u.FullIn seen i) :
    (tokens (d.kept ++ d.closing)).take (i + u.spelling.length) = v.spelling.take (i + u.spelling.length) := by
  obtain ⟨n, k, hpasses, hagree, hbetween⟩ := h.agree hd
  rw [hall] at hpasses hagree hbetween
  have hpos := u.length_spelling_pos
  have hle := hpasses.of_fullIn hat hfull
  have hk : i + u.spelling.length ≤ k := by
    by_contra hk
    exact (Value.not_quiet hat).2 (hbetween _ (by omega) (by omega))
  exact take_eq_of_le hagree hk

/-- The bracket of a container that the text opens is kept, and all tokens before it. -/
theorem Tracks.take_of_container {u : Value} {path : List Nat} {i : Nat}
    (hall : tokens (seen ++ rest) = v.spelling) (h : Tracks (tokens (seen ++ rest)) v seen rest r)
    (hd : r.repaired = some d) (hat : v.at? path = some (i, u)) (hu : u.isContainer = true)
    (hi : i < begun seen) : (tokens (d.kept ++ d.closing)).take (i + 1) = v.spelling.take (i + 1) := by
  obtain ⟨n, k, hpasses, hagree, hbetween⟩ := h.agree hd
  rw [hall] at hpasses hagree hbetween
  have hlt := hpasses.of_container hat hu hi
  have hk : i < k := by
    by_contra hk
    exact (Value.not_quiet hat).1 (hbetween i (by omega) hlt)
  exact take_eq_of_le hagree hk

/-! ### Truncations -/

/-- What has been read where the text is closed is a truncation of what the whole document says. -/
theorem Repair.Checkpoint.At.truncation {m : Checkpoint} {ts ts' : List Token} {p : Progress} (h : m.At ts p)
    (hv : Runs .start (ts ++ ts') (.done v))
    (hw : Runs .start (ts ++ p.stack.map Frame.closeToken) (.done w)) : Truncation w v := by
  obtain ⟨w', hclosed, hclosers⟩ := h.closable.runs_closers
  obtain rfl : w' = w := by
    have heq := (runs_append.mpr ⟨p, h.reached, hclosers⟩).unique hw
    exact Progress.done.inj heq
  obtain ⟨p', hp', hleads⟩ := runs_append.mp hv
  obtain rfl := hp'.unique h.reached
  exact hleads.truncation hclosed

/-- The string in which the text ends is cut short, and with it the value that it is part of. -/
theorem InText.truncation {passed ahead : List Token} {s : String} {t : Token} {stack : List Frame}
    (h : InText all v seen d passed ahead s t stack)
    (hw : Runs .start (passed ++ t :: stack.map Frame.closeToken) (.done w)) : Truncation w v := by
  obtain ⟨awaiting, ha, hreached⟩ := h.reached
  obtain ⟨p, hp, hw⟩ := runs_append.mp hw
  obtain rfl := hp.unique hreached
  obtain ⟨stack', awaiting', p', hp', hm, -, hw⟩ := hw.exists_moves
  cases hp'
  obtain ⟨s', rfl⟩ := exists_text_of_moves hm h.kind
  obtain rfl := hm.eq_supply ha rfl
  -- The two readings go on from a text and the beginning of it, and from then on only add to it.
  have hcut : Below (some (.text s')) (some (.text s)) := .some (.text (h.content s' rfl))
  obtain ⟨w', hclosed, hclosers⟩ := runs_closers_supply (.text s') stack
  obtain rfl : w' = w := Progress.done.inj (hclosers.unique hw)
  have hleads := below_of_runs h.leads
  rw [closed_supply] at hleads
  have hbelow := (closeAll_mono stack hcut).trans hleads
  rw [hclosed] at hbelow
  cases hbelow with
  | some htrunc => exact htrunc

/-- What is read of the repaired text is cut short from the document. -/
theorem Tracks.truncation (h : Tracks (tokens (seen ++ rest)) v seen rest r)
    (hv : Runs .start (tokens (seen ++ rest)) (.done v)) (hd : r.repaired = some d)
    (hw : Runs .start (tokens (d.kept ++ d.closing)) (.done w)) : Truncation w v := by
  rcases h.rests_or_inText with ⟨n, hrests⟩ | ⟨d', passed, ahead, s, t, k, stack, hd', -, -, hin⟩
  · obtain ⟨m, ts, p, rfl, hat, ⟨more, hmore⟩, -⟩ := hrests.exists_of_some hd
    rw [hat.tokens_closed] at hw
    rw [← hmore] at hv
    exact hat.truncation hv hw
  · obtain rfl : d' = d := Option.some.inj (hd'.symm.trans hd)
    rw [hin.repaired] at hw
    exact hin.truncation hw

/-- Where nothing is repaired, of values no more has begun than the outermost container, and a literal. -/
theorem Tracks.of_none {u : Value} {path : List Nat} {i : Nat} (hall : tokens (seen ++ rest) = v.spelling)
    (h : Tracks (tokens (seen ++ rest)) v seen rest r) (hd : r.repaired = none) (hat : v.at? path = some (i, u))
    (hi : i < begun seen) :
    path = [] ∧ u.isContainer = true ∨ u.isLiteral = true ∧ ¬u.FullIn seen i := by
  -- Without a repaired text there is no checkpoint inside the outermost value, so the text rests.
  rcases h.rests_or_inText with ⟨n, hrests⟩ | ⟨d, passed, ahead, s, t, k, stack, hd', -⟩
  · rw [hall] at hrests
    have hquiet := (Value.not_quiet hat).1
    obtain ⟨t, hfirst, hopen, hvalue⟩ := Value.getElem?_first hat
    rcases Nat.lt_or_ge i n with hlt | hge
    -- a token that has ended would have set a checkpoint, unless it opens the document
    · left
      obtain ⟨rfl, t', ht', hnone⟩ := hrests.of_none hd hlt hquiet
      obtain rfl := Value.eq_nil_of_at? hat
      rw [hfirst] at ht'
      cases ht'
      refine ⟨rfl, ?_⟩
      by_contra hu
      rw [hvalue (Bool.not_eq_true _ ▸ hu)] at hnone
      cases hnone
    -- the token at `i` has begun and not ended: it is a literal
    · cases hrests.passes with
      | between _ hn => exact absurd hi (Nat.not_lt.mpr (hn ▸ hge))
      | text _ hn htext =>
        obtain rfl : i = n := by omega
        exact absurd (hrests.key _ htext hi) hquiet
      | literal _ _ hn _ ht' hliteral =>
        right
        obtain rfl : i = n := by omega
        rw [hfirst] at ht'
        cases ht'
        have hu : u.isContainer = false := by
          cases hu : u.isContainer with
          | true => rcases hopen hu with rfl | rfl <;> cases hliteral
          | false => rfl
        refine ⟨Value.isLiteral_of_value? (hvalue hu) ▸ hliteral, ?_⟩
        intro hfull
        have hle := hrests.passes.of_fullIn hat hfull
        have hpos := u.length_spelling_pos
        omega
  · rw [hd] at hd'
    cases hd'

end Tracks

/-! ### Reading a repaired document -/

/-- A repaired text holds a value of a document in full: it has the same tokens up to the end of the value, and
what is read of it has the value at the same place. -/
def Repaired.Keeps (r : Repaired) (document : String) (path : List Nat) (i : Nat) (u : Value) : Prop :=
  (tokens r.text.toList).take (i + u.spelling.length) = (tokens document.toList).take (i + u.spelling.length) ∧
    ∀ w, parse r.text = .ok w → w.at? path = some (i, u)

/-- A repaired text opens a container of a document: it has the same tokens up to the opening bracket, and what
is read of it has the container at the same place, cut short. -/
def Repaired.Opens (r : Repaired) (document : String) (path : List Nat) (i : Nat) (u : Value) : Prop :=
  (tokens r.text.toList).take (i + 1) = (tokens document.toList).take (i + 1) ∧
    ∀ w, parse r.text = .ok w → ∃ u', w.at? path = some (i, u') ∧ Truncation u' u

/-- A beginning of a document can be read as far as it goes. What is read of it is a truncation of what the
document says; no value that it holds in full and no container that it opens is lost; and if nothing can be
read, then it begins no value but the outermost container and a literal that may still go on. -/
theorem repair_truncates {document text : String} {v : Value} (hparse : parse document = .ok v)
    (hbegin : text.toList <+: document.toList) :
    (∀ r w, repair text = some r → parse r.text = .ok w → Truncation w v) ∧
      (∀ r path i u, repair text = some r → v.at? path = some (i, u) →
        (u.FullIn text.toList i → r.Keeps document path i u) ∧
          (u.isContainer = true → i < begun text.toList → r.Opens document path i u)) ∧
      (repair text = none → ∀ path i u, v.at? path = some (i, u) → i < begun text.toList →
        path = [] ∧ u.isContainer = true ∨ u.isLiteral = true ∧ ¬u.FullIn text.toList i) := by
  obtain ⟨rest, hrest⟩ := hbegin
  have hspelling : tokens (text.toList ++ rest) = v.spelling := by
    rw [hrest]
    exact Value.eq_spelling_of_ofTokens hparse
  have hruns : Runs .start (tokens (text.toList ++ rest)) (.done v) := by
    rw [hrest]
    exact Value.ofTokens_eq_ok_iff.mp hparse
  -- the scanner has followed the text, and both parts rest on that
  have htracks := Tracks.scan hruns
  have hread {r : Repaired} {w : Value} (hw : parse r.text = .ok w) :
      Runs .start (tokens (r.kept ++ r.closing)) (.done w) := by
    rw [parse, Repaired.text, String.toList_ofList] at hw
    exact Value.ofTokens_eq_ok_iff.mp hw
  have htruncation : ∀ r w, repair text = some r → parse r.text = .ok w → Truncation w v := by
    intro r w hr hw
    exact htracks.truncation hruns hr (hread hw)
  refine ⟨htruncation, ?_, ?_⟩
  · intro r path i u hr hat
    have htext : r.text.toList = r.kept ++ r.closing := String.toList_ofList
    -- What agrees in the tokens of the texts does so in the spellings of what is read of them.
    have hspelling' {w : Value} (hw : parse r.text = .ok w) : tokens (r.kept ++ r.closing) = w.spelling := by
      rw [← htext]
      exact Value.eq_spelling_of_ofTokens hw
    constructor
    · intro hfull
      have htake := htracks.take_of_fullIn hspelling hr hat hfull
      refine ⟨by rw [htext, htake, ← hspelling, hrest], ?_⟩
      intro w hw
      rw [hspelling' hw] at htake
      exact Value.at?_of_take_eq hat htake (Nat.le_refl _)
    · intro hu hi
      have htake := htracks.take_of_container hspelling hr hat hu hi
      refine ⟨by rw [htext, htake, ← hspelling, hrest], ?_⟩
      intro w hw
      rw [hspelling' hw] at htake
      obtain ⟨u', hu'⟩ := Value.exists_at?_of_take_eq hat htake (Nat.lt_succ_self i)
      exact ⟨u', hu', (htruncation r w hr hw).at? hu' hat⟩
  · intro hr path i u hat hi
    exact htracks.of_none hspelling hr hat hi

/-- A document that has been written up to the middle of a string. -/
theorem repair_truncates_in_string :
    Truncation (.array [.number (.integer 1), .array [.text "b"]])
        (.array [.number (.integer 1), .array [.text "bc"], .number (.integer 2)]) ∧
      (⟨"[1, [\"b".toList, "\"]]".toList⟩ : Repaired).Keeps "[1, [\"bc\"], 2]" [0] 1 (.number (.integer 1)) ∧
      (⟨"[1, [\"b".toList, "\"]]".toList⟩ : Repaired).Opens "[1, [\"bc\"], 2]" [1] 3 (.array [.text "bc"]) := by
  have hrepair : repair "[1, [\"b" = some ⟨"[1, [\"b".toList, "\"]]".toList⟩ := by decide
  have hparse : parse "[1, [\"bc\"], 2]" =
      .ok (.array [.number (.integer 1), .array [.text "bc"], .number (.integer 2)]) := rfl
  have hbegin : "[1, [\"b".toList <+: "[1, [\"bc\"], 2]".toList := by decide
  obtain ⟨htruncation, hkept, -⟩ := repair_truncates hparse hbegin
  refine ⟨htruncation _ _ hrepair rfl, (hkept _ _ _ _ hrepair rfl).1 ?_,
    (hkept _ _ _ _ hrepair rfl).2 rfl (by decide)⟩
  exact ⟨"[1".toList, ',', by decide, rfl, by decide⟩

end GuidedDecoding.Json
