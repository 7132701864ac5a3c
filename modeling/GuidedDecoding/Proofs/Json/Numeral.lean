import GuidedDecoding.Proofs.Json.Growth

/-!
# What a numeral stands for

A document that is a number is one numeral, with blanks around it (`exists_reads_of_parse`). What the scanner makes
of the characters of a numeral is followed from one character to the next (`NumeralScan.Reads`): as long as it is a
sign and digits, the digits are kept as they are, and behind them a point or the mark of an exponent is never
forgotten (`NumeralScan.Reads.integral`, `NumeralScan.Reads.fractional`).

So a document is an integer exactly if it is written as one that fits 64 bits, signed or unsigned, and the integer is
the one that its digits make up; only `-0` is none (`eq_integer_iff`).
-/

namespace GuidedDecoding.Json

/-! ### Digits -/

def decimal (ds : List ℕ) : ℕ := ds.foldl (fun n d => n * 10 + d) 0

def signedDecimal (negative : Bool) (ds : List ℕ) : ℤ := if negative then -(decimal ds : ℤ) else decimal ds

def Digits (cs : List Char) (ds : List ℕ) : Prop := List.Forall₂ (fun c d => digit? c = some d) cs ds

/-- The characters write an integer: digits, perhaps behind a minus. -/
def WritesInteger (cs : List Char) (negative : Bool) (ds : List ℕ) : Prop :=
  ds ≠ [] ∧ ∃ body, Digits body ds ∧ cs = if negative then '-' :: body else body

theorem Digits.concat {cs : List Char} {ds : List ℕ} {c : Char} {d : ℕ} (h : Digits cs ds) (hd : digit? c = some d) :
    Digits (cs ++ [c]) (ds ++ [d]) :=
  List.rel_append h (.cons hd .nil)

/-- Further digits never lessen a number. -/
theorem le_foldl_decimal (ds : List ℕ) (n : ℕ) : n ≤ ds.foldl (fun n d => n * 10 + d) n := by
  induction ds generalizing n with
  | nil => exact le_rfl
  | cons d ds ih =>
    have hrest := ih (n * 10 + d)
    rw [List.foldl_cons]
    omega

namespace Numeral

/-- All digits fit exactly if the number that they make up does, and then that is the significand. -/
theorem absorb_spec (ds : List ℕ) (n : ℕ) :
    (ds.foldl (fun n d => n * 10 + d) n ≤ significandMax →
      absorb n ds = (ds.foldl (fun n d => n * 10 + d) n, ds.length, 0)) ∧
      (n ≤ significandMax → significandMax < ds.foldl (fun n d => n * 10 + d) n → 0 < (absorb n ds).2.2) := by
  induction ds generalizing n with
  | nil => exact ⟨fun _ => rfl, fun hle hlt => absurd hlt (not_lt.mpr hle)⟩
  | cons d ds ih =>
    obtain ⟨hfit, hover⟩ := ih (n * 10 + d)
    have hle := le_foldl_decimal ds (n * 10 + d)
    rw [List.foldl_cons, absorb]
    constructor
    · intro h
      rw [if_pos (hle.trans h), hfit h]
      rfl
    · intro _ h
      split
      · next hd => exact hover hd h
      · exact Nat.succ_pos _

/-- An integer is a numeral without fraction and exponent whose value fits. -/
theorem integer?_eq_some_iff {n : Numeral} {k : ℤ} :
    n.integer? = some k ↔ n.fraction = none ∧ n.exponent = none ∧ k = signedDecimal n.negative n.whole ∧
      (n.negative = true → k ≠ 0) ∧ -2 ^ 63 ≤ k ∧ k < 2 ^ 64 := by
  obtain ⟨hfit, hover⟩ := absorb_spec n.whole 0
  unfold integer? signedDecimal decimal
  generalize n.whole.foldl (fun n d => n * 10 + d) 0 = value at *
  have hmax : significandMax = 2 ^ 64 - 1 := rfl
  rw [hmax] at hfit hover
  -- up to the largest significand nothing is left over, and above it something is
  rcases le_or_gt value (2 ^ 64 - 1) with hle | hlt
  · rw [hfit hle]
    cases n.fraction with
    | some f => simp
    | none =>
      cases n.exponent with
      | some e => simp
      | none =>
        cases n.negative with
        | false =>
          simp
          omega
        | true =>
          simp
          omega
  · have hleft := hover (Nat.zero_le _) hlt
    generalize absorb 0 n.whole = found at hleft
    obtain ⟨total, taken, left⟩ := found
    obtain ⟨left, rfl⟩ := Nat.exists_eq_succ_of_ne_zero hleft.ne'
    cases n.fraction with
    | some f => simp
    | none =>
      cases n.exponent with
      | some e => simp
      | none =>
        cases n.negative with
        | false =>
          simp
          omega
        | true =>
          simp
          omega

end Numeral

/-! ### Characters of a numeral -/

namespace NumeralScan

/-- The characters of a numeral so far, and what the scanner makes of them. -/
inductive Reads : List Char → NumeralScan → Prop
  | start {c : Char} {n : NumeralScan} : start? c = some n → Reads [c] n
  | more {cs : List Char} {c : Char} {n n' : NumeralScan} : Reads cs n → n.feed c = .more n' → Reads (cs ++ [c]) n'

/-- Neither a point nor the mark of an exponent has been read. -/
def IsIntegral (n : NumeralScan) : Prop := n.phase = .sign ∨ n.phase = .zero ∨ n.phase = .whole

def IsMark (c : Char) : Prop := c = '.' ∨ c = 'e' ∨ c = 'E'

variable {cs : List Char} {c : Char} {n n' : NumeralScan}

/-- One more character is a digit of the integer, or there is a point or a mark now. -/
theorem feed_spec (h : n.feed c = .more n') :
    (n'.IsIntegral → n.IsIntegral ∧ ∃ d, digit? c = some d ∧ n'.phase ≠ .sign ∧
      n' = { n with phase := n'.phase, whole := if n.phase = .sign then [d] else d :: n.whole }) ∧
      (¬ n'.IsIntegral → (IsMark c ∨ ¬ n.IsIntegral) ∧ (n'.phase = .fraction → n'.fraction ≠ none) ∧
        (n'.phase = .power → n'.power ≠ none)) := by
  unfold feed extend at h
  -- The cases are what was read last, with and without a digit now.
  split at h
  all_goals
    repeat' split at h
    all_goals cases h
    all_goals simp_all [IsIntegral, IsMark]

/-- What has been read is a sign and digits as long as there is no point and no mark. -/
theorem Reads.integral (h : Reads cs n) (hi : n.IsIntegral) :
    n.fraction = none ∧ n.power = none ∧ (n.phase = .sign ↔ n.whole = []) ∧
      ∃ body, Digits body n.whole.reverse ∧ cs = if n.negative then '-' :: body else body := by
  -- As long as the numeral is integral each further character is a digit.
  induction h with
  | @start c n hstart =>
    unfold start? at hstart
    split at hstart
    · next hc =>
      cases hstart
      exact ⟨rfl, rfl, by simp, [], .nil, by simp [hc]⟩
    · split at hstart
      · next hd =>
        cases hstart
        exact ⟨rfl, rfl, by simp, [c], .cons hd .nil, rfl⟩
      · next hd =>
        cases hstart
        exact ⟨rfl, rfl, by simp, [c], .cons hd .nil, rfl⟩
      · cases hstart
  | @more cs c n n' hreads hfeed ih =>
    obtain ⟨hi', d, hd, hphase, hn'⟩ := (feed_spec hfeed).1 hi
    obtain ⟨hfraction, hpower, hsign, body, hbody, hcs⟩ := ih hi'
    rw [hn']
    refine ⟨hfraction, hpower, ?_, body ++ [c], ?_, ?_⟩
    · refine iff_of_false hphase ?_
      dsimp only
      split <;> exact List.cons_ne_nil _ _
    · have hwhole : (if n.phase = .sign then [d] else d :: n.whole) = d :: n.whole := by
        split
        · next h => rw [hsign.mp h]
        · rfl
      dsimp only
      rw [hwhole, List.reverse_cons]
      exact hbody.concat hd
    · rw [hcs]
      cases n.negative <;> rfl

/-- A point or a mark that has been read is not forgotten. -/
theorem Reads.fractional (h : Reads cs n) (hi : ¬ n.IsIntegral) :
    (∃ c ∈ cs, IsMark c) ∧ (n.phase = .fraction → n.fraction ≠ none) ∧ (n.phase = .power → n.power ≠ none) := by
  induction h with
  | start hstart =>
    refine absurd ?_ hi
    unfold start? at hstart
    repeat' split at hstart
    all_goals cases hstart
    all_goals simp [IsIntegral]
  | @more cs c n n' hreads hfeed ih =>
    obtain ⟨hmark, hlast⟩ := (feed_spec hfeed).2 hi
    refine ⟨?_, hlast⟩
    rcases hmark with hc | hi'
    · exact ⟨c, List.mem_append_right _ List.mem_cons_self, hc⟩
    · obtain ⟨⟨c', hc', hmark⟩, -⟩ := ih hi'
      exact ⟨c', List.mem_append_left _ hc', hmark⟩

/-- A complete numeral is an integer if it has neither a fraction nor an exponent. -/
theorem Reads.isIntegral (h : Reads cs n) (hcomplete : n.complete = true) (hfraction : n.fraction = none)
    (hpower : n.power = none) : n.IsIntegral := by
  by_contra hi
  obtain ⟨-, hlast, hlast'⟩ := h.fractional hi
  unfold complete at hcomplete
  unfold IsIntegral at hi
  cases hphase : n.phase <;> simp_all

/-- A complete numeral without a point or mark of an exponent writes an integer. -/
theorem Reads.writesInteger (h : Reads cs n) (hcomplete : n.complete = true) (hi : n.IsIntegral) :
    WritesInteger cs n.negative n.whole.reverse := by
  obtain ⟨-, -, hsign, body, hbody, hcs⟩ := h.integral hi
  refine ⟨?_, body, hbody, hcs⟩
  intro hnil
  have hphase := hsign.mpr (List.reverse_eq_nil_iff.mp hnil)
  rw [complete, hphase] at hcomplete
  cases hcomplete

theorem exponent_eq_none_iff (n : NumeralScan) : n.numeral.exponent = none ↔ n.power = none := by
  cases h : n.power <;> simp [numeral, h]

end NumeralScan

/-! ### Documents that are numbers -/

/-- If a numeral that has begun is all there is, it ends in front of blanks or of the end. -/
theorem exists_reads_of_tokens {cs rest : List Char} {n : NumeralScan} {x : Number} (h : NumeralScan.Reads cs n)
    (htokens : (Scan.numeral n).tokens rest = [.number x]) :
    ∃ more back n', rest = more ++ back ∧ NumeralScan.Reads (cs ++ more) n' ∧ n'.complete = true ∧
      n'.numeral.number? = some x ∧ ∀ c ∈ back, isBlank c = true := by
  have htoken {n : NumeralScan} {atEnd : Bool} (h : n.token atEnd = .number x) :
      n.complete = true ∧ n.numeral.number? = some x := by
    unfold NumeralScan.token at h
    split at h
    · next hcomplete =>
      split at h
      · next y hy =>
        cases h
        exact ⟨hcomplete, hy⟩
      · cases h
    · cases h
  induction rest generalizing cs n with
  | nil =>
    obtain ⟨hcomplete, hnumber⟩ := htoken (List.cons.inj htokens).1
    exact ⟨[], [], n, rfl, by simpa using h, hcomplete, hnumber, nofun⟩
  | cons c rest ih =>
    rw [Scan.tokens, Scan.feed] at htokens
    cases hfeed : n.feed c with
    | more n' =>
      rw [hfeed] at htokens
      obtain ⟨more, back, n'', rfl, hreads, hfound⟩ := ih (h.more hfeed) htokens
      exact ⟨c :: more, back, n'', rfl, by simpa using hreads, hfound⟩
    | done =>
      rw [hfeed] at htokens
      obtain ⟨hfirst, hrest⟩ := List.cons.inj htokens
      obtain ⟨hcomplete, hnumber⟩ := htoken hfirst
      exact ⟨[], c :: rest, n, rfl, by simpa using h, hcomplete, hnumber, blank_of_tokens_eq_nil hrest⟩
    | broken =>
      rw [hfeed] at htokens
      cases (List.cons.inj htokens).1

/-- A document that is a number is a numeral, with blanks around it. -/
theorem exists_reads_of_parse {text : String} {x : Number} (h : parse text = .ok (.number x)) :
    ∃ front cs back n, text.toList = front ++ cs ++ back ∧ (∀ c ∈ front, isBlank c = true) ∧
      (∀ c ∈ back, isBlank c = true) ∧ NumeralScan.Reads cs n ∧ n.complete = true ∧ n.numeral.number? = some x := by
  have htokens : tokens text.toList = [.number x] := Value.eq_spelling_of_ofTokens h
  generalize text.toList = cs at htokens
  -- blanks in front, then a numeral; any other first character begins a token that is none
  induction cs with
  | nil => cases htokens
  | cons c cs ih =>
    rw [tokens, Scan.tokens, Scan.feed] at htokens
    have hkind {s : Scan} {k : TokenKind} (hs : s.kind? = some k) (hk : k ≠ .numeral) :
        [] ++ s.tokens cs ≠ [.number x] := by
      obtain ⟨t, rest, hs', ht⟩ := Scan.exists_tokens_of_kind? hs cs
      rw [hs']
      rintro heq
      cases heq
      exact hk (Option.some.inj ht).symm
    have hstart := Scan.starts_start c
    generalize Scan.start c = found at htokens hstart
    obtain ⟨s, out⟩ := found
    cases hstart with
    | blank hblank =>
      obtain ⟨front, cs', back, n, rfl, hfront, hfound⟩ := ih htokens
      exact ⟨c :: front, cs', back, n, rfl, List.forall_mem_cons.mpr ⟨hblank, hfront⟩, hfound⟩
    | numeral hn =>
      obtain ⟨more, back, n', rfl, hreads, hcomplete, hnumber, hback⟩ := exists_reads_of_tokens (.start hn) htokens
      exact ⟨[], c :: more, back, n', rfl, by simp, hback, hreads, hcomplete, hnumber⟩
    | text => exact absurd htokens (hkind rfl (by decide))
    | word => exact absurd htokens (hkind rfl (by decide))
    | _ => cases htokens

/-! ### Integers -/

/-- What stands around a numeral or inside of it is no digit. -/
theorem digit?_eq_none {c : Char} (h : isBlank c = true ∨ c = '-' ∨ NumeralScan.IsMark c) : digit? c = none := by
  have hall : ∀ c ∈ [' ', '\t', '\n', '\r', '-', '.', 'e', 'E'], digit? c = none := by simp [digit?]
  refine hall c ?_
  simp only [isBlank, Bool.or_eq_true, decide_eq_true_eq, NumeralScan.IsMark] at h
  simp only [List.mem_cons, List.not_mem_nil, or_false]
  rcases h with (((h | h) | h) | h) | h | h | h | h <;> simp [h]

theorem Digits.exists_of_mem {cs : List Char} {ds : List ℕ} (h : Digits cs ds) : ∀ c ∈ cs, ∃ d, digit? c = some d := by
  induction h with
  | nil => exact nofun
  | cons hd _ ih => exact List.forall_mem_cons.mpr ⟨⟨_, hd⟩, ih⟩

/-- Characters write digits in one way. -/
theorem Digits.unique {cs : List Char} {ds es : List ℕ} (h : Digits cs ds) (h' : Digits cs es) : ds = es := by
  induction h generalizing es with
  | nil =>
    cases h'
    rfl
  | cons hd _ ih =>
    cases h' with
    | cons he h' =>
      rw [hd] at he
      cases he
      rw [ih h']

/-- An integer is written with digits and a minus only. -/
theorem WritesInteger.mem {cs : List Char} {negative : Bool} {ds : List ℕ} (h : WritesInteger cs negative ds) :
    ∀ c ∈ cs, c = '-' ∨ ∃ d, digit? c = some d := by
  obtain ⟨-, body, hbody, rfl⟩ := h
  intro c hc
  cases negative with
  | false => exact Or.inr (hbody.exists_of_mem c hc)
  | true =>
    rcases List.mem_cons.mp hc with rfl | hc
    · exact Or.inl rfl
    · exact Or.inr (hbody.exists_of_mem c hc)

theorem WritesInteger.not_blank {cs : List Char} {negative : Bool} {ds : List ℕ} (h : WritesInteger cs negative ds) :
    ∀ c ∈ cs, isBlank c = false := by
  intro c hc
  rcases h.mem c hc with rfl | ⟨d, hd⟩
  · rfl
  · by_contra hblank
    rw [digit?_eq_none (Or.inl (Bool.of_not_eq_false hblank))] at hd
    cases hd

theorem WritesInteger.not_mark {cs : List Char} {negative : Bool} {ds : List ℕ} (h : WritesInteger cs negative ds) :
    ∀ c ∈ cs, ¬ NumeralScan.IsMark c := by
  intro c hc hmark
  rcases h.mem c hc with rfl | ⟨d, hd⟩
  · rcases hmark with h | h | h <;> cases h
  · rw [digit?_eq_none (Or.inr (Or.inr hmark))] at hd
    cases hd

/-- Characters write one integer at most, in one way. -/
theorem WritesInteger.unique {cs : List Char} {negative negative' : Bool} {ds es : List ℕ}
    (h : WritesInteger cs negative ds) (h' : WritesInteger cs negative' es) : negative = negative' ∧ ds = es := by
  obtain ⟨-, body, hbody, hcs⟩ := h
  obtain ⟨-, body', hbody', hcs'⟩ := h'
  rw [hcs] at hcs'
  -- a minus is no digit, so it tells the signs apart
  have hminus {body body' : List Char} {ds : List ℕ} (hbody : Digits body ds) : body ≠ '-' :: body' := by
    rintro rfl
    obtain ⟨d, hd⟩ := hbody.exists_of_mem '-' List.mem_cons_self
    rw [digit?_eq_none (Or.inr (Or.inl rfl))] at hd
    cases hd
  cases negative with
  | false =>
    cases negative' with
    | false =>
      obtain rfl : body = body' := hcs'
      exact ⟨rfl, hbody.unique hbody'⟩
    | true => exact absurd hcs' (hminus hbody)
  | true =>
    cases negative' with
    | false => exact absurd hcs'.symm (hminus hbody')
    | true =>
      obtain rfl : body = body' := (List.cons.inj hcs').2
      exact ⟨rfl, hbody.unique hbody'⟩

/-- The text writes this integer: as digits, perhaps behind a minus, with blanks around them. A minus in front of zero
makes no integer. -/
def IntegerText (text : String) (k : ℤ) : Prop :=
  ∃ front cs back negative ds, text.toList = front ++ cs ++ back ∧ (∀ c ∈ front, isBlank c = true) ∧
    (∀ c ∈ back, isBlank c = true) ∧ WritesInteger cs negative ds ∧ k = signedDecimal negative ds ∧
    (negative = true → k ≠ 0)

/-- Without the blanks around it, what is written is what is left of the text without blanks. -/
theorem WritesInteger.eq_filter {front cs back : List Char} {negative : Bool} {ds : List ℕ}
    (h : WritesInteger cs negative ds) (hfront : ∀ c ∈ front, isBlank c = true) (hback : ∀ c ∈ back, isBlank c = true) :
    (front ++ cs ++ back).filter (!isBlank ·) = cs := by
  have hnone {cs : List Char} (h : ∀ c ∈ cs, isBlank c = true) : cs.filter (!isBlank ·) = [] := by
    simpa [List.filter_eq_nil_iff] using h
  have hall : cs.filter (!isBlank ·) = cs := by
    simpa [List.filter_eq_self] using h.not_blank
  rw [List.filter_append, List.filter_append, hnone hfront, hnone hback, hall]
  simp

/-- A document that is a number is an integer exactly if its text writes one that fits 64 bits, signed or unsigned. -/
theorem eq_integer_iff {text : String} {x : Number} (h : parse text = .ok (.number x)) (k : ℤ) :
    x = .integer k ↔ IntegerText text k ∧ -2 ^ 63 ≤ k ∧ k < 2 ^ 64 := by
  obtain ⟨front, cs, back, n, htext, hfront, hback, hreads, hcomplete, hnumber⟩ := exists_reads_of_parse h
  have hx : x = .integer k ↔ n.numeral.integer? = some k := by
    unfold Numeral.number? at hnumber
    cases hinteger : n.numeral.integer? with
    | some i =>
      rw [hinteger] at hnumber
      cases hnumber
      simp
    | none =>
      rw [hinteger] at hnumber
      obtain ⟨y, -, rfl⟩ := Option.map_eq_some_iff.mp hnumber
      simp
  rw [hx, Numeral.integer?_eq_some_iff]
  constructor
  · rintro ⟨hfraction, hpower, hk, hminus, hlow, hhigh⟩
    have hi := hreads.isIntegral hcomplete (Option.map_eq_none_iff.mp hfraction) (n.exponent_eq_none_iff.mp hpower)
    exact ⟨⟨front, cs, back, _, _, htext, hfront, hback, hreads.writesInteger hcomplete hi, hk, hminus⟩, hlow, hhigh⟩
  · rintro ⟨⟨front', cs', back', negative, ds, htext', hfront', hback', hwrites, hk, hminus⟩, hlow, hhigh⟩
    have hi : n.IsIntegral := by
      by_contra hi
      obtain ⟨⟨c, hc, hmark⟩, -⟩ := hreads.fractional hi
      -- A point or a mark is no blank, so it would have to be among the digits.
      have hmem : c ∈ front' ++ cs' ++ back' := by
        rw [← htext', htext]
        exact List.mem_append_left _ (List.mem_append_right _ hc)
      have hblank : isBlank c = false := by rcases hmark with rfl | rfl | rfl <;> rfl
      have hfilter := hwrites.eq_filter hfront' hback'
      refine hwrites.not_mark c ?_ hmark
      rw [← hfilter]
      exact List.mem_filter.mpr ⟨hmem, by rw [hblank]; rfl⟩
    have hwrites' := hreads.writesInteger hcomplete hi
    obtain rfl : cs = cs' := by
      rw [← hwrites'.eq_filter hfront hback, ← hwrites.eq_filter hfront' hback', ← htext, htext']
    obtain ⟨rfl, rfl⟩ := hwrites'.unique hwrites
    obtain ⟨hfraction, hpower, -⟩ := hreads.integral hi
    exact ⟨Option.map_eq_none_iff.mpr hfraction, n.exponent_eq_none_iff.mpr hpower, hk, hminus, hlow, hhigh⟩

end GuidedDecoding.Json
