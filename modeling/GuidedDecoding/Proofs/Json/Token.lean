import GuidedDecoding.Json.Token
import Mathlib

/-!
# Scanning in parts

What the scanner has found behind a part of a text (`Scan.emitted`) does not depend on what follows, and what
it finds in the rest depends only on where it stands (`Scan.tokens_append`).

A character between tokens begins one in one of a few ways, which `Scan.Starts` lists. A word, numeral or
string that is begun makes up one token, whatever follows (`Scan.exists_tokens_of_kind?`). So of the tokens of
a text some end within a part of it (`ended`), and at most one more begins there (`begun`).
-/

namespace GuidedDecoding.Json

namespace Scan

/-! ### Parts of a text -/

def after (s : Scan) (cs : List Char) : Scan := cs.foldl (fun s c => (s.feed c).1) s

def emitted : Scan → List Char → List Token
  | _, [] => []
  | s, c :: cs => (s.feed c).2 ++ (s.feed c).1.emitted cs

variable {s : Scan} {a b cs : List Char} {c : Char}

@[simp] theorem after_nil : s.after [] = s := rfl

@[simp] theorem after_cons : s.after (c :: cs) = (s.feed c).1.after cs := rfl

/-- Scanning can be done in two parts. -/
theorem after_append : s.after (a ++ b) = (s.after a).after b := List.foldl_append

theorem after_concat : s.after (a ++ [c]) = ((s.after a).feed c).1 := by
  rw [after_append]
  rfl

theorem emitted_append : s.emitted (a ++ b) = s.emitted a ++ (s.after a).emitted b := by
  induction a generalizing s with
  | nil => rfl
  | cons c a ih => rw [List.cons_append, emitted, emitted, ih, after_cons, List.append_assoc]

theorem emitted_concat : s.emitted (a ++ [c]) = s.emitted a ++ ((s.after a).feed c).2 := by
  rw [emitted_append, emitted, emitted, List.append_nil]

/-- The tokens of a text are those that end in its first part, and those of the rest. -/
theorem tokens_append : s.tokens (a ++ b) = s.emitted a ++ (s.after a).tokens b := by
  induction a generalizing s with
  | nil => rfl
  | cons c a ih => rw [List.cons_append, tokens, emitted, ih, after_cons, List.append_assoc]

/-- All tokens are those that have ended, and the one that the end of the text completes. -/
theorem tokens_eq : s.tokens a = s.emitted a ++ (s.after a).finish := by
  have h := tokens_append (s := s) (a := a) (b := [])
  rwa [List.append_nil] at h

/-- From the start of a text to here the scanner has found these tokens. -/
structure Finds (cs : List Char) (s : Scan) (ts : List Token) : Prop where
  after : between.after cs = s
  emitted : between.emitted cs = ts

namespace Finds

variable {ts us : List Token} {s' : Scan}

theorem nil : Finds [] between [] := ⟨rfl, rfl⟩

/-- What is found behind a place between tokens is found from there on. -/
theorem append (h : Finds a between ts) (h' : Finds b s us) : Finds (a ++ b) s (ts ++ us) := by
  constructor
  · rw [after_append, h.after, h'.after]
  · rw [emitted_append, h.after, h.emitted, h'.emitted]

/-- Each character adds the tokens that end with it. -/
theorem feed (h : Finds cs s ts) (c : Char) : Finds (cs ++ [c]) (s.feed c).1 (ts ++ (s.feed c).2) := by
  constructor
  · rw [after_concat, h.after]
  · rw [emitted_concat, h.after, h.emitted]

/-- The tokens of a longer text begin with those that have been found. -/
theorem tokens_append (h : Finds a s ts) (b : List Char) : Json.tokens (a ++ b) = ts ++ s.tokens b := by
  rw [Json.tokens, Scan.tokens_append, h.after, h.emitted]

theorem tokens_eq (h : Finds a s ts) : Json.tokens a = ts ++ s.finish := by
  rw [Json.tokens, Scan.tokens_eq, h.after, h.emitted]

end Finds

/-! ### The first character of a token -/

inductive Starts : Char → Scan → List Token → Prop
  | blank {c : Char} : isBlank c = true → Starts c .between []
  | openArray : Starts '[' .between [.openArray]
  | closeArray : Starts ']' .between [.closeArray]
  | openObject : Starts '{' .between [.openObject]
  | closeObject : Starts '}' .between [.closeObject]
  | comma : Starts ',' .between [.comma]
  | colon : Starts ':' .between [.colon]
  | text : Starts '"' (.text {}) []
  | word {w : Word} {c : Char} {rest : List Char} : w.letters = c :: rest → Starts c (.word w rest) []
  | numeral {c : Char} {n : NumeralScan} : NumeralScan.start? c = some n → Starts c (.numeral n) []
  | stray {c : Char} : Starts c .halted [.stray]

/-- Every character does one of these things between two tokens. -/
theorem starts_start (c : Char) : Starts c (start c).1 (start c).2 := by
  unfold start
  split
  · next hblank => exact .blank hblank
  · split
    · exact .openArray
    · exact .closeArray
    · exact .openObject
    · exact .closeObject
    · exact .comma
    · exact .colon
    · exact .text
    · exact .word (w := .null) rfl
    · exact .word (w := .true) rfl
    · exact .word (w := .false) rfl
    · cases hnumeral : NumeralScan.start? _ with
      | some n => exact .numeral hnumeral
      | none => exact .stray

end Scan

/-! ### Tokens of several characters -/

inductive TokenKind where
  | word
  | numeral
  | text
  deriving DecidableEq

def Token.kind? : Token → Option TokenKind
  | .word _ | .brokenWord _ => some .word
  | .number _ | .hugeNumber | .brokenNumber _ => some .numeral
  | .text _ | .unpairedText | .brokenText .. => some .text
  | _ => none

def Scan.kind? : Scan → Option TokenKind
  | .word .. => some .word
  | .numeral _ => some .numeral
  | .text _ => some .text
  | .between | .halted => none

theorem NumeralScan.kind?_token (n : NumeralScan) (atEnd : Bool) : (n.token atEnd).kind? = some .numeral := by
  unfold token
  split
  · split <;> rfl
  · rfl

theorem TextScan.kind?_token (t : TextScan) : t.token.kind? = some .text := by
  unfold token
  split <;> rfl

theorem TextScan.kind?_brokenToken (t : TextScan) (flaw : Flaw) : (t.brokenToken flaw).kind? = some .text := by
  unfold brokenToken
  split <;> rfl

/-- A string ends with a quote outside an escape, or it is broken off. -/
theorem TextScan.done_of_feed {t : TextScan} {c : Char} {tok : Token} {goesOn : Bool}
    (h : t.feed c = .done tok goesOn) :
    (c = '"' ∧ t.phase = .plain ∧ tok = t.token ∧ goesOn = true) ∨ ∃ flaw, tok = t.brokenToken flaw := by
  unfold feed at h
  -- the four branches that end a string: its quote, and one for each phase that cannot go on
  cases hphase : t.phase with
  | plain =>
    simp only [hphase] at h
    split at h
    · next hquote =>
      cases h
      exact Or.inl ⟨hquote, rfl, rfl, rfl⟩
    · split at h
      · cases h
      · split at h
        · cases h
          exact Or.inr ⟨_, rfl⟩
        · cases h
  | escape =>
    simp only [hphase] at h
    split at h
    · cases h
    · split at h
      · cases h
      · cases h
        exact Or.inr ⟨_, rfl⟩
  | hex owed value =>
    simp only [hphase] at h
    split at h
    · cases h
    · split at h
      · cases h
      · cases h
        exact Or.inr ⟨_, rfl⟩

/-- A string that ends here, for better or worse, is a token of that kind. -/
theorem TextScan.kind?_of_feed {t : TextScan} {c : Char} {tok : Token} {goesOn : Bool}
    (h : t.feed c = .done tok goesOn) : tok.kind? = some .text := by
  rcases done_of_feed h with ⟨-, -, rfl, -⟩ | ⟨flaw, rfl⟩
  · exact t.kind?_token
  · exact t.kind?_brokenToken flaw

namespace Scan

variable {s : Scan} {k : TokenKind} {a b : List Char} {c : Char}

/-- One more character of a token leaves the scanner in it, or the token comes first of those that end. -/
theorem feed_of_kind? (h : s.kind? = some k) (c : Char) :
    ((s.feed c).2 = [] ∧ (s.feed c).1.kind? = some k) ∨
      ∃ t rest, (s.feed c).2 = t :: rest ∧ t.kind? = some k := by
  -- one branch for each kind of token; the character either stays inside of it or ends it
  cases s with
  | word w rest =>
    cases h
    unfold feed
    cases rest with
    | nil => exact Or.inr ⟨_, _, rfl, rfl⟩
    | cons r rest =>
      cases rest with
      | nil => dsimp only; split <;> exact Or.inr ⟨_, _, rfl, rfl⟩
      | cons r' rest =>
        dsimp only
        split
        · exact Or.inl ⟨rfl, rfl⟩
        · exact Or.inr ⟨_, _, rfl, rfl⟩
  | numeral n =>
    cases h
    rw [feed]
    cases n.feed c with
    | more n' => exact Or.inl ⟨rfl, rfl⟩
    | done => exact Or.inr ⟨_, _, rfl, n.kind?_token _⟩
    | broken => exact Or.inr ⟨_, _, rfl, rfl⟩
  | text t =>
    cases h
    rw [feed]
    cases hfeed : t.feed c with
    | more t' => exact Or.inl ⟨rfl, rfl⟩
    | done tok goesOn => exact Or.inr ⟨_, _, rfl, TextScan.kind?_of_feed hfeed⟩
  | between => cases h
  | halted => cases h

/-- At the end of the text the token that is open ends, whatever its kind. -/
theorem finish_of_kind? (h : s.kind? = some k) : ∃ t, s.finish = [t] ∧ t.kind? = some k := by
  cases s with
  | word w rest => exact ⟨_, rfl, h⟩
  | numeral n => exact ⟨_, rfl, h ▸ n.kind?_token _⟩
  | text t => exact ⟨_, rfl, h ▸ t.kind?_brokenToken _⟩
  | between => cases h
  | halted => cases h

/-- The token that has been begun comes first. -/
theorem exists_tokens_of_kind? (h : s.kind? = some k) (cs : List Char) :
    ∃ t rest, s.tokens cs = t :: rest ∧ t.kind? = some k := by
  induction cs generalizing s with
  | nil =>
    obtain ⟨t, hfinish, ht⟩ := finish_of_kind? h
    exact ⟨t, [], hfinish, ht⟩
  | cons c cs ih =>
    rw [tokens]
    rcases feed_of_kind? h c with ⟨hnone, hk⟩ | ⟨t, rest, hfeed, ht⟩
    · rw [hnone]
      exact ih hk
    · rw [hfeed]
      exact ⟨t, _, rfl, ht⟩

end Scan

/-! ### Counting -/

/-- How many tokens end within some characters. The end of a numeral shows in the character behind it. -/
def ended (cs : List Char) : Nat := (Scan.between.emitted cs).length

/-- How many tokens begin within some characters. -/
def begun (cs : List Char) : Nat := ended cs + (Scan.between.after cs).kind?.isSome.toNat

section Counting

variable {a b : List Char}

/-- No token ends that has not begun. -/
theorem ended_le_begun (a : List Char) : ended a ≤ begun a := Nat.le_add_right _ _

/-- Between tokens all that have begun have ended. -/
theorem begun_of_kind?_eq_none (h : (Scan.between.after a).kind? = none) : begun a = ended a := by
  rw [begun, h]
  rfl

/-- Inside of a token it is the only one that has begun and not ended. -/
theorem begun_of_kind?_eq_some {k : TokenKind} (h : (Scan.between.after a).kind? = some k) :
    begun a = ended a + 1 := by
  rw [begun, h]
  rfl

/-- No token comes back. -/
theorem ended_le_append (a b : List Char) : ended a ≤ ended (a ++ b) := by
  rw [ended, ended, Scan.emitted_append, List.length_append]
  exact Nat.le_add_right _ _

/-- A token that has begun has still begun later. -/
theorem begun_le_append (a b : List Char) : begun a ≤ begun (a ++ b) := by
  induction b generalizing a with
  | nil => simp
  | cons c b ih =>
    refine Nat.le_trans ?_ (List.append_cons a c b ▸ ih (a ++ [c]))
    cases hk : (Scan.between.after a).kind? with
    | none =>
      rw [begun_of_kind?_eq_none hk]
      exact Nat.le_trans (ended_le_append a [c]) (ended_le_begun _)
    | some k =>
      rw [begun_of_kind?_eq_some hk]
      rcases Scan.feed_of_kind? hk c with ⟨-, hk'⟩ | ⟨t, rest, hfeed, -⟩
      · rw [← Scan.after_concat] at hk'
        rw [begun_of_kind?_eq_some hk']
        exact Nat.add_le_add_right (ended_le_append a [c]) 1
      · -- The token has ended at this character.
        refine Nat.le_trans ?_ (ended_le_begun _)
        rw [ended, ended, Scan.emitted_concat, hfeed, List.length_append, List.length_cons]
        omega

end Counting

end GuidedDecoding.Json
