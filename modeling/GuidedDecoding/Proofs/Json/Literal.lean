import GuidedDecoding.Json.Repair
import GuidedDecoding.Proofs.Json.Token
import GuidedDecoding.Proofs.Json.Value

/-!
# Words and numerals

In a document a word or numeral goes on up to the first character that ends literals, and never holds one
(`Scan.InLiteral.feed`, `Scan.InLiteral.ends`). The end of a word shows in its last letter, that of a numeral
in the character behind it, so `Scan.InLiteral` allows for both.
-/

namespace GuidedDecoding.Json

open Repair (endsLiteral)

/-! ### The characters that end a literal -/

theorem Repair.endsLiteral_mem {c : Char} (h : endsLiteral c = true) :
    c ∈ [' ', '\t', '\n', '\x0C', '\r', ',', '}', ']', ':'] := by
  simp only [endsLiteral, isBlank, Bool.or_eq_true, decide_eq_true_eq] at h
  simp only [List.mem_cons]
  tauto

theorem Repair.isBlank_of_isBlank {c : Char} (h : Json.isBlank c = true) : Repair.isBlank c = true := by
  simp only [Json.isBlank, Bool.or_eq_true, decide_eq_true_eq] at h
  simp only [isBlank, Bool.or_eq_true, decide_eq_true_eq]
  tauto

theorem Repair.endsLiteral_of_isBlank {c : Char} (h : Json.isBlank c = true) : endsLiteral c = true := by
  simp [endsLiteral, isBlank_of_isBlank h]

theorem Repair.isBlank_of_endsLiteral_eq_false {c : Char} (h : endsLiteral c = false) :
    Repair.isBlank c = false := by
  simp only [endsLiteral, Bool.or_eq_false_iff] at h
  exact h.1.1.1.1

/-- The letters of the words do not end a literal. -/
theorem Repair.endsLiteral_letters (w : Word) : ∀ c ∈ w.letters, endsLiteral c = false := by
  cases w <;> simp [Word.letters, endsLiteral, isBlank]

/-- A numeral begins with a character that begins nothing else, and ends nothing. -/
theorem NumeralScan.endsLiteral_of_start? {c : Char} {n : NumeralScan} (h : start? c = some n) :
    endsLiteral c = false ∧ c ∉ ['{', '[', '"'] := by
  have hall : ∀ c ∈ ['{', '[', '"'] ++ [' ', '\t', '\n', '\x0C', '\r', ',', '}', ']', ':'],
      start? c = none := by
    simp [start?, digit?]
  have hnot (hc : c ∈ ['{', '[', '"'] ++ [' ', '\t', '\n', '\x0C', '\r', ',', '}', ']', ':']) : False := by
    have hnone := hall c hc
    rw [h] at hnone
    cases hnone
  constructor
  · by_contra hends
    rw [Bool.not_eq_false] at hends
    exact hnot (List.mem_append_right _ (Repair.endsLiteral_mem hends))
  · intro hc
    exact hnot (List.mem_append_left _ hc)

/-- A numeral ends here if it may, and is faulty otherwise. -/
theorem NumeralScan.feed_of_endsLiteral {c : Char} (n : NumeralScan) (h : endsLiteral c = true) :
    n.feed c = if n.complete then .done else .broken := by
  have hdigit : digit? c = none := by
    have hall : ∀ c ∈ [' ', '\t', '\n', '\x0C', '\r', ',', '}', ']', ':'], digit? c = none := by
      simp [digit?]
    exact hall c (Repair.endsLiteral_mem h)
  have hsign : c ≠ '.' ∧ c ≠ 'e' ∧ c ≠ 'E' ∧ c ≠ '+' ∧ c ≠ '-' := by
    have hall : ∀ c ∈ [' ', '\t', '\n', '\x0C', '\r', ',', '}', ']', ':'],
        c ≠ '.' ∧ c ≠ 'e' ∧ c ≠ 'E' ∧ c ≠ '+' ∧ c ≠ '-' := by
      simp
    exact hall c (Repair.endsLiteral_mem h)
  obtain ⟨hpoint, he, hE, hplus, hminus⟩ := hsign
  unfold feed complete
  rw [hdigit]
  cases n.phase <;> simp [extend, hpoint, he, hE, hplus, hminus]

/-- What is read of a numeral that ends here does not depend on what ends it. -/
theorem NumeralScan.token_of_complete {n : NumeralScan} (h : n.complete = true) :
    n.token true = n.token false := by
  rw [token, token, if_pos h, if_pos h]

/-- Whether a token is a word or a numeral, faulty or not. -/
def Token.isLiteral (t : Token) : Bool := t.kind? = some .word || t.kind? = some .numeral

/-- A word or numeral in a document is a value. -/
theorem Progress.Moves.literal {stack : List Frame} {awaiting : Awaiting} {t : Token} {p : Progress}
    (h : Moves stack awaiting t p) (ht : t.isLiteral = true) :
    awaiting.IsValue ∧ ∃ u, t.value? = some u ∧ p = supply u stack := by
  cases h with
  | scalar ha hv => exact ⟨ha, _, hv, rfl⟩
  | openArray => cases ht
  | openObject => cases ht
  | key => cases ht
  | colon => cases ht
  | commaMember => cases ht
  | commaItem => cases ht
  | closeArray => cases ht
  | closeObject => cases ht

/-- What is read as one token with a value of its own is a literal to the scanner of unfinished documents.
-/
theorem Repair.isLiteral_of_tokens {cs : List Char} {t : Token} {u : Value} (h : tokens cs = [t])
    (ht : t.value? = some u) : isLiteral cs = true := by
  have hruns : Progress.Runs .start [t] (.done u) := by
    refine .cons ?_ .nil
    unfold Token.value? at ht
    split at ht <;> cases ht <;> rfl
  rw [isLiteral, h, Value.ofTokens_eq_ok_iff.mpr hruns]
  rfl

/-! ### Tokens of a document -/

/-- The token of a word or numeral that ends well, whether or not it can be read. -/
def Token.IsWholeLiteral (t : Token) : Prop := (∃ w, t = .word w) ∨ (∃ n, t = .number n) ∨ t = .hugeNumber

/-- Behind a value may come this list of tokens. -/
def BehindValue (ts : List Token) : Prop := ∀ t ∈ ts.head?, t = .comma ∨ t = .closeArray ∨ t = .closeObject

/-- A word or numeral at the front of these tokens stands as in a document: it ends well, and what is behind it
may come behind a value. -/
def LiteralStands (ts : List Token) : Prop :=
  ∀ t rest, ts = t :: rest → t.isLiteral = true → t.IsWholeLiteral ∧ BehindValue rest

theorem Token.isWholeLiteral_of_value? {t : Token} {u : Value} (ht : t.isLiteral = true)
    (hu : t.value? = some u) : t.IsWholeLiteral := by
  cases t with
  | word w => exact Or.inl ⟨w, rfl⟩
  | number n => exact Or.inr (Or.inl ⟨n, rfl⟩)
  | text s => cases ht
  | _ => cases hu

/-- Only a numeral beyond the doubles ends well and is no value. -/
theorem Token.IsWholeLiteral.exists_value? {t : Token} (h : t.IsWholeLiteral) (ht : t ≠ .hugeNumber) :
    ∃ u, t.value? = some u := by
  rcases h with ⟨w, rfl⟩ | ⟨n, rfl⟩ | rfl
  · cases w <;> exact ⟨_, rfl⟩
  · exact ⟨_, rfl⟩
  · exact absurd rfl ht

/-- A word that breaks off is no whole literal. -/
theorem Token.not_isWholeLiteral_brokenWord (flaw : Flaw) : ¬(Token.brokenWord flaw).IsWholeLiteral := by
  rintro (⟨w, h⟩ | ⟨n, h⟩ | h) <;> cases h

theorem Token.not_isWholeLiteral_brokenNumber (atEnd : Bool) : ¬(Token.brokenNumber atEnd).IsWholeLiteral := by
  rintro (⟨w, h⟩ | ⟨n, h⟩ | h) <;> cases h

/-- Where a reading has taken a value in, the rest is what may come behind one. -/
theorem Progress.Runs.behindValue {u : Value} {stack : List Frame} {ts : List Token} {q : Progress}
    (h : Runs (supply u stack) ts q) : BehindValue ts := by
  intro t ht
  cases ts with
  | nil => cases ht
  | cons t' ts =>
    cases ht
    exact h.separator

/-- So a literal at the front of a reading stands as in a document. -/
theorem Progress.Runs.literalStands {ts : List Token} {p q : Progress} (h : Runs p ts q) : LiteralStands ts := by
  rintro t rest rfl ht
  obtain ⟨stack, awaiting, p', -, hm, -, hrest⟩ := h.exists_moves
  obtain ⟨-, u, hu, rfl⟩ := hm.literal ht
  exact ⟨Token.isWholeLiteral_of_value? ht hu, hrest.behindValue⟩

namespace Scan

/-- Behind a value in a document comes a character that ends literals. -/
theorem endsLiteral_of_behindValue {c : Char} {cs : List Char} (h : BehindValue (between.tokens (c :: cs))) :
    endsLiteral c = true := by
  rw [tokens, feed] at h
  have hfirst {t : Token} {rest : List Token} (h : BehindValue (t :: rest)) :
      t = .comma ∨ t = .closeArray ∨ t = .closeObject := h t rfl
  -- Any token of several characters would be out of place.
  have hkind {s : Scan} {k : TokenKind} (hs : s.kind? = some k) (h : BehindValue ([] ++ s.tokens cs)) :
      False := by
    obtain ⟨t, rest, htokens, ht⟩ := exists_tokens_of_kind? hs cs
    rw [List.nil_append, htokens] at h
    rcases hfirst h with rfl | rfl | rfl <;> cases ht
  have hstart := starts_start c
  generalize start c = found at h hstart
  obtain ⟨s, out⟩ := found
  cases hstart with
  | blank hblank => exact Repair.endsLiteral_of_isBlank hblank
  | closeArray => rfl
  | closeObject => rfl
  | comma => rfl
  | colon => rfl
  | openArray => rcases hfirst h with h | h | h <;> cases h
  | openObject => rcases hfirst h with h | h | h <;> cases h
  | stray => rcases hfirst h with h | h | h <;> cases h
  | text => exact (hkind rfl h).elim
  | word => exact (hkind rfl h).elim
  | numeral => exact (hkind rfl h).elim

/-- Where the scanner stands in a literal or right behind a word, and what it has found since the literal
began. -/
inductive InLiteral : Scan → List Token → Prop
  | word {w : Word} {r : Char} {rest : List Char} :
      (∀ c ∈ r :: rest, endsLiteral c = false) → InLiteral (.word w (r :: rest)) []
  | behindWord {w : Word} : InLiteral .between [.word w]
  | numeral {n : NumeralScan} : InLiteral (.numeral n) []

/-- The first letter of a word. -/
theorem inLiteral_of_letters {w : Word} {c : Char} {rest : List Char} (h : w.letters = c :: rest) :
    endsLiteral c = false ∧ c ∉ ['{', '[', '"'] ∧ InLiteral (.word w rest) [] := by
  have hletters := Repair.endsLiteral_letters w
  rw [h] at hletters
  refine ⟨hletters c List.mem_cons_self, ?_, ?_⟩
  · cases w <;>
    · cases h
      decide
  · cases rest with
    | nil => cases w <;> cases h
    | cons c' rest => exact .word fun c hc => hletters c (List.mem_cons_of_mem _ hc)

variable {s : Scan} {out : List Token} {c : Char} {cs : List Char}

/-- Whatever follows, a literal that has begun becomes a token. -/
theorem InLiteral.exists_token (h : InLiteral s out) (cs : List Char) :
    ∃ t rest, out ++ s.tokens cs = t :: rest ∧ t.isLiteral = true := by
  cases h with
  | @word w r rest =>
    obtain ⟨t, rest', htokens, ht⟩ := exists_tokens_of_kind? (s := .word w (r :: rest)) rfl cs
    exact ⟨t, rest', htokens, by rw [Token.isLiteral, ht]; rfl⟩
  | behindWord => exact ⟨_, _, rfl, rfl⟩
  | @numeral n =>
    obtain ⟨t, rest, htokens, ht⟩ := exists_tokens_of_kind? (s := .numeral n) rfl cs
    exact ⟨t, rest, htokens, by rw [Token.isLiteral, ht]; rfl⟩

/-- At the end of the text the literal is the only token behind its begin. -/
theorem InLiteral.exists_finish (h : InLiteral s out) : ∃ t, out ++ s.finish = [t] ∧ t.isLiteral = true := by
  cases h with
  | word => exact ⟨_, rfl, rfl⟩
  | behindWord => exact ⟨_, rfl, rfl⟩
  | @numeral n => exact ⟨n.token true, rfl, by rw [Token.isLiteral, n.kind?_token]; rfl⟩

theorem feed_word_of_ne {w : Word} {r : Char} {rest : List Char} (h : c ≠ r) :
    Scan.feed (.word w (r :: rest)) c = (.halted, [.brokenWord .malformed]) := by
  cases rest with
  | nil => rw [Scan.feed, if_neg h]
  | cons r' rest =>
    rw [Scan.feed, if_neg h]
    exact List.cons_ne_nil _ _

/-- A literal goes on with every character that does not end it. -/
theorem InLiteral.feed (hs : InLiteral s out) (hc : endsLiteral c = false)
    (h : LiteralStands (out ++ s.tokens (c :: cs))) : InLiteral (s.feed c).1 (out ++ (s.feed c).2) := by
  cases hs with
  | @word w r rest hletters =>
    by_cases hr : c = r
    · subst hr
      cases rest with
      | nil =>
        rw [Scan.feed, if_pos rfl]
        exact .behindWord
      | cons r' rest =>
        rw [Scan.feed, if_pos rfl]
        · exact .word fun c hc => hletters c (List.mem_cons_of_mem _ hc)
        · exact List.cons_ne_nil _ _
    · -- A misspelled word does not end well.
      rw [tokens, feed_word_of_ne hr] at h
      exact absurd (h _ _ rfl rfl).1 (Token.not_isWholeLiteral_brokenWord _)
  | behindWord =>
    rw [endsLiteral_of_behindValue (h _ _ rfl rfl).2] at hc
    cases hc
  | @numeral n =>
    rw [List.nil_append, tokens, Scan.feed] at h
    rw [Scan.feed]
    cases hfeed : n.feed c with
    | more n' => exact .numeral
    | done =>
      rw [hfeed] at h
      obtain ⟨-, hrest⟩ := h _ _ rfl (by rw [Token.isLiteral, n.kind?_token]; rfl)
      rw [endsLiteral_of_behindValue hrest] at hc
      cases hc
    | broken =>
      rw [hfeed] at h
      exact absurd (h _ _ rfl rfl).1 (Token.not_isWholeLiteral_brokenNumber _)

/-- The literal that the scanner is in or right behind is this token if it ends here, whatever ends it. -/
structure EndsAs (s : Scan) (out : List Token) (t : Token) : Prop where
  finish : out ++ s.finish = [t]
  feed : ∀ c, endsLiteral c = true → (s.feed c).1 = (start c).1 ∧ out ++ (s.feed c).2 = t :: (start c).2

/-- A literal that ends here is the first token, and the others are those of the text behind it. -/
theorem EndsAs.tokens {t : Token} (h : EndsAs s out t) {more : List Char}
    (hmore : ∀ c ∈ more.head?, endsLiteral c = true) : out ++ s.tokens more = t :: Json.tokens more := by
  cases more with
  | nil => exact h.finish
  | cons c more =>
    obtain ⟨hstart, hfound⟩ := h.feed c (hmore c rfl)
    rw [Scan.tokens, ← List.append_assoc, hfound, hstart]
    rfl

/-- A numeral that lacks nothing. -/
theorem endsAs_numeral {n : NumeralScan} (hcomplete : n.complete = true) : EndsAs (.numeral n) [] (n.token false) where
  finish := by
    rw [finish, NumeralScan.token_of_complete hcomplete]
    rfl
  feed := by
    intro c hc
    rw [Scan.feed, n.feed_of_endsLiteral hc, hcomplete]
    exact ⟨rfl, rfl⟩

/-- A literal that a character ends here is complete here. -/
theorem InLiteral.ends (hs : InLiteral s out) (hc : endsLiteral c = true)
    (h : LiteralStands (out ++ s.tokens (c :: cs))) : ∃ t, t.isLiteral = true ∧ EndsAs s out t := by
  cases hs with
  | @word w r rest hletters =>
    have hr : c ≠ r := by
      rintro rfl
      rw [hletters c List.mem_cons_self] at hc
      cases hc
    rw [tokens, feed_word_of_ne hr] at h
    exact absurd (h _ _ rfl rfl).1 (Token.not_isWholeLiteral_brokenWord _)
  | @behindWord w => exact ⟨.word w, rfl, rfl, fun _ _ => ⟨rfl, rfl⟩⟩
  | @numeral n =>
    cases hcomplete : n.complete with
    | true => exact ⟨n.token false, by rw [Token.isLiteral, n.kind?_token]; rfl, endsAs_numeral hcomplete⟩
    | false =>
      -- A numeral that lacks a digit does not end well.
      rw [List.nil_append, tokens, Scan.feed, n.feed_of_endsLiteral hc, hcomplete] at h
      exact absurd (h _ _ rfl rfl).1 (Token.not_isWholeLiteral_brokenNumber _)

end Scan

end GuidedDecoding.Json
