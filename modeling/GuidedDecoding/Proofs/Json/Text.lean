import GuidedDecoding.Json.Repair
import GuidedDecoding.Proofs.Json.Token

/-!
# Strings that end well

A string that can be read ends with a quote outside an escape, and what has been read of it by some point is
a beginning of it (`TextScan.content_of_tokens`).

The scanner of unfinished documents only looks for backslashes and counts the bytes of numeric escapes. On
strings that end well it keeps step with the scanner of tokens all the same: `TextScan.Fits` says when the two
stand at the same place, and `TextScan.fits_feed` that every character keeps them there.
-/

namespace GuidedDecoding.Json

def Token.IsWholeText (t : Token) : Prop := t = .unpairedText ∨ ∃ s, t = .text s

namespace TextScan

variable {t t' : TextScan} {c : Char} {cs : List Char} {s : String} {tok : Token} {rest : List Token}

/-! ### What has been read -/

theorem phase_push (t : TextScan) (c : Char) : (t.push c).phase = .plain := rfl

theorem phase_pushUnit (t : TextScan) (u : Nat) : (t.pushUnit u).phase = .plain := by
  unfold pushUnit
  dsimp only
  split
  · split <;> rfl
  · split
    · rfl
    · split <;> rfl

theorem content_spoil (t : TextScan) (k : List Char) : t.spoil.content ≠ .ok k := by
  intro h
  rw [spoil] at h
  cases hcontent : t.content with
  | ok k' =>
    rw [hcontent] at h
    cases h
  | error flaw =>
    rw [hcontent] at h
    cases h

theorem suffix_of_map_cons {k' : List Char} (h : t.content.map (c :: ·) = .ok k') :
    ∃ k, t.content = .ok k ∧ k <:+ k' := by
  cases hcontent : t.content with
  | ok k =>
    rw [hcontent] at h
    cases h
    exact ⟨k, rfl, List.suffix_cons _ _⟩
  | error flaw =>
    rw [hcontent] at h
    cases h

/-- What a string holds already stays at its front. -/
theorem content_push {k' : List Char} (h : (t.push c).content = .ok k') : ∃ k, t.content = .ok k ∧ k <:+ k' := by
  unfold push at h
  dsimp only at h
  split at h
  · obtain ⟨k, hk, -⟩ := suffix_of_map_cons h
    exact absurd hk (t.content_spoil k)
  · exact suffix_of_map_cons h

theorem content_pushUnit {u : Nat} {k' : List Char} (h : (t.pushUnit u).content = .ok k') :
    ∃ k, t.content = .ok k ∧ k <:+ k' := by
  unfold pushUnit at h
  dsimp only at h
  split at h
  · split at h
    · exact suffix_of_map_cons h
    · exact absurd h (t.content_spoil k')
  · split at h
    · exact absurd h (t.content_spoil k')
    · split at h
      · exact ⟨k', h, List.suffix_refl _⟩
      · exact suffix_of_map_cons h

inductive Advances (t : TextScan) (c : Char) : TextScan → Prop
  | backslash : t.phase = .plain → c = '\\' → Advances t c { t with phase := .escape }
  | plain : t.phase = .plain → c ≠ '"' → c ≠ '\\' → Advances t c (t.push c)
  | hex : t.phase = .escape → c = 'u' → Advances t c { t with phase := .hex 4 (some 0) }
  | escaped {e : Char} : t.phase = .escape → c ≠ 'u' → Advances t c (t.push e)
  | digit {owed : Nat} {value value' : Option Nat} : t.phase = .hex owed value → c.utf8Size < owed →
      value' = (value.bind fun v => (hexDigit? c).map fun d => v * 16 + d) →
      Advances t c { t with phase := .hex (owed - c.utf8Size) value' }
  | lastDigit {owed : Nat} {value : Option Nat} {u : Nat} : t.phase = .hex owed value → ¬c.utf8Size < owed →
      some u = (value.bind fun v => (hexDigit? c).map fun d => v * 16 + d) → Advances t c (t.pushUnit u)

/-- A character within a string does one of six things. -/
theorem advances_of_feed (h : t.feed c = .more t') : Advances t c t' := by
  unfold feed at h
  -- the phase says what the next character may be, and each branch of `feed` is one of the six
  cases hphase : t.phase with
  | plain =>
    simp only [hphase] at h
    split at h
    · cases h
    · next hquote =>
      split at h
      · next hslash =>
        cases h
        exact .backslash hphase hslash
      · next hslash =>
        split at h
        · cases h
        · cases h
          exact .plain hphase hquote hslash
  | escape =>
    simp only [hphase] at h
    split at h
    · next hu =>
      cases h
      exact .hex hphase hu
    · next hu =>
      split at h
      · cases h
        exact .escaped hphase hu
      · cases h
  | hex owed value =>
    simp only [hphase] at h
    split at h
    · next hsize =>
      cases h
      exact .digit hphase hsize rfl
    · next hsize =>
      split at h
      · next u hvalue =>
        cases h
        exact .lastDigit hphase hsize hvalue.symm
      · cases h

theorem isWholeText_text (s : String) : (Token.text s).IsWholeText := Or.inr ⟨s, rfl⟩

/-- A string that breaks off does not end well. -/
theorem not_isWholeText_brokenToken (t : TextScan) (flaw : Flaw) : ¬(t.brokenToken flaw).IsWholeText := by
  unfold brokenToken
  split <;>
  · rintro (h | ⟨s, h⟩) <;> cases h

/-- A string that ends well ends with a quote. -/
theorem quote_of_feed {goesOn : Bool} (h : t.feed c = .done tok goesOn) (htok : tok.IsWholeText) :
    c = '"' ∧ t.phase = .plain ∧ t.token = tok ∧ goesOn = true := by
  rcases done_of_feed h with ⟨hquote, hphase, htoken, hgoesOn⟩ | ⟨flaw, rfl⟩
  · exact ⟨hquote, hphase, htoken.symm, hgoesOn⟩
  · exact absurd htok (t.not_isWholeText_brokenToken flaw)

/-- The next character of a string that ends well. -/
theorem feed_of_tokens (h : (Scan.text t).tokens (c :: cs) = tok :: rest) (htok : tok.IsWholeText) :
    (c = '"' ∧ t.phase = .plain ∧ t.token = tok ∧ (Scan.text t).feed c = (.between, [tok])) ∨
      ∃ t', t.feed c = .more t' ∧ (Scan.text t').tokens cs = tok :: rest := by
  rw [Scan.tokens, Scan.feed] at h
  cases hfeed : t.feed c with
  | more t' =>
    rw [hfeed] at h
    exact Or.inr ⟨t', rfl, h⟩
  | done tok goesOn =>
    rw [hfeed] at h
    obtain ⟨rfl, -⟩ := List.cons.inj h
    obtain ⟨hquote, hphase, htoken, rfl⟩ := quote_of_feed hfeed htok
    refine Or.inl ⟨hquote, hphase, htoken, ?_⟩
    rw [Scan.feed, hfeed]
    rfl

theorem scan_feed (h : t.feed c = .more t') : (Scan.text t).feed c = (.text t', []) := by
  rw [Scan.feed, h]

/-- A string that can be read has the characters that were scanned. -/
theorem content_of_token (h : t.token = .text s) : ∃ k, t.content = .ok k ∧ s.toList = k.reverse := by
  unfold token at h
  split at h
  · next k _ hcontent =>
    cases h
    exact ⟨k, hcontent, String.toList_ofList⟩
  · cases h

/-- What has been read of a string that ends well is a beginning of it. -/
theorem content_of_tokens (h : (Scan.text t).tokens cs = .text s :: rest) :
    ∃ k, t.content = .ok k ∧ k.reverse <+: s.toList := by
  induction cs generalizing t with
  | nil =>
    have hbroken : t.brokenToken .truncated = .text s := (List.cons.inj h).1
    exact absurd (hbroken ▸ isWholeText_text s) (t.not_isWholeText_brokenToken _)
  | cons c cs ih =>
    rcases feed_of_tokens h (isWholeText_text s) with ⟨-, -, htoken, -⟩ | ⟨t', hfeed, h⟩
    · obtain ⟨k, hk, hs⟩ := content_of_token htoken
      exact ⟨k, hk, hs ▸ List.prefix_rfl⟩
    · obtain ⟨k', hk', hs⟩ := ih h
      -- A character adds to the front of the list, so what was there before is a suffix.
      have hsuffix : ∃ k, t.content = .ok k ∧ k <:+ k' := by
        cases advances_of_feed hfeed with
        | backslash => exact ⟨k', hk', List.suffix_refl _⟩
        | plain => exact content_push hk'
        | hex => exact ⟨k', hk', List.suffix_refl _⟩
        | escaped => exact content_push hk'
        | digit => exact ⟨k', hk', List.suffix_refl _⟩
        | lastDigit => exact content_pushUnit hk'
      obtain ⟨k, hk, hsuffix⟩ := hsuffix
      exact ⟨k, hk, (List.reverse_prefix.mpr hsuffix).trans hs⟩

/-- A numeric escape that holds something else than digits is never completed. -/
theorem not_isWholeText_of_hex_none {owed : Nat} (hphase : t.phase = .hex owed none)
    (h : (Scan.text t).tokens cs = tok :: rest) : ¬tok.IsWholeText := by
  intro htok
  -- once a digit is missing no further one can bring it back
  induction cs generalizing t owed with
  | nil =>
    obtain rfl : t.brokenToken .truncated = tok := (List.cons.inj h).1
    exact t.not_isWholeText_brokenToken _ htok
  | cons c cs ih =>
    rcases feed_of_tokens h htok with ⟨-, hplain, -, -⟩ | ⟨t', hfeed, h⟩
    · rw [hphase] at hplain
      cases hplain
    · cases advances_of_feed hfeed with
      | backslash h' | plain h' | hex h' | escaped h' =>
        rw [hphase] at h'
        cases h'
      | digit h' _ hvalue =>
        rw [hphase] at h'
        cases h'
        rw [hvalue] at h
        exact ih rfl h
      | lastDigit h' _ hvalue =>
        rw [hphase] at h'
        cases h'
        cases hvalue

/-! ### Keeping step -/

/-- A scanner of unfinished documents stands at the same place of the string as a scanner of tokens. -/
inductive Fits : TextPhase → Repair.BodyPhase → Bool → Prop
  | plain : Fits .plain .whole false
  | escape : Fits .escape .backslash true
  | hex {owed u : Nat} : Fits (.hex owed (some u)) (.numeric owed) false

variable {phase : Repair.BodyPhase} {escaped : Bool}

/-- The one is between escapes when the other is. -/
theorem Fits.whole_iff {textPhase : TextPhase} (h : Fits textPhase phase escaped) :
    phase = .whole ↔ textPhase = .plain := by
  cases h <;> simp

/-- A plain character is not one that an escape has taken. -/
theorem Fits.not_escaped (h : Fits t.phase phase escaped) (hphase : t.phase = .plain) : escaped = false := by
  rw [hphase] at h
  cases h
  rfl

/-- A digit of a numeric escape is neither a quote nor a backslash. -/
theorem ne_of_hexDigit? {d : Nat} (h : hexDigit? c = some d) : c ≠ '"' ∧ c ≠ '\\' := by
  constructor
  · rintro rfl
    have hnone : hexDigit? '"' = none := by decide
    rw [hnone] at h
    cases h
  · rintro rfl
    have hnone : hexDigit? '\\' = none := by decide
    rw [hnone] at h
    cases h

/-- A character that is no quote outside an escape. -/
theorem fits_feed (hfits : Fits t.phase phase escaped) (hfeed : t.feed c = .more t')
    (h : (Scan.text t').tokens cs = tok :: rest) (htok : tok.IsWholeText) :
    ¬(c = '"' ∧ escaped = false) ∧ Fits t'.phase (phase.feed c) (!escaped && c = '\\') := by
  -- the two scanners keep different records of an escape, so the step is checked for each kind of step
  cases advances_of_feed hfeed with
  | backslash hphase hslash =>
    rw [hphase] at hfits
    cases hfits
    subst hslash
    exact ⟨by simp, .escape⟩
  | plain hphase hquote hslash =>
    rw [hphase] at hfits
    cases hfits
    refine ⟨fun h => hquote h.1, ?_⟩
    rw [phase_push, Repair.BodyPhase.feed, if_neg hslash]
    simpa [hslash] using Fits.plain
  | hex hphase hu =>
    rw [hphase] at hfits
    cases hfits
    subst hu
    exact ⟨by simp, .hex⟩
  | escaped hphase hu =>
    rw [hphase] at hfits
    cases hfits
    refine ⟨by simp, ?_⟩
    rw [phase_push, Repair.BodyPhase.feed, if_neg hu]
    exact .plain
  | digit hphase hsize hvalue =>
    rw [hphase] at hfits
    cases hfits
    cases hd : hexDigit? c with
    | none =>
      -- The string ends well, so no other character stands here.
      rw [hd] at hvalue
      subst hvalue
      exact absurd htok (not_isWholeText_of_hex_none rfl h)
    | some d =>
      obtain ⟨hquote, hslash⟩ := ne_of_hexDigit? hd
      rw [hd] at hvalue
      subst hvalue
      refine ⟨fun h => hquote h.1, ?_⟩
      rw [Repair.BodyPhase.feed, if_pos hsize]
      simpa [hslash] using Fits.hex
  | lastDigit hphase hsize hvalue =>
    rw [hphase] at hfits
    cases hfits
    cases hd : hexDigit? c with
    | none =>
      rw [hd] at hvalue
      cases hvalue
    | some d =>
      obtain ⟨hquote, hslash⟩ := ne_of_hexDigit? hd
      refine ⟨fun h => hquote h.1, ?_⟩
      rw [phase_pushUnit, Repair.BodyPhase.feed, if_neg hsize]
      simpa [hslash] using Fits.plain

end TextScan

end GuidedDecoding.Json
