import GuidedDecoding.Proofs.Matcher.History
import GuidedDecoding.Proofs.Matcher.Open
import GuidedDecoding.Proofs.TextDecoder

/-!
# What the start of a matcher checks

A matcher starts where every stop token has a slot and, under a pattern, the bytes of all tokens are known
(`start_checks`). Then no call can fail for want of them, not even one that looks everything up again (`callAnew`),
and neither can a decode or a detokenizer.

Without a grammar the bytes are not looked at. A vocabulary that cannot be read then starts like any other, and the
failure comes with the first token that is to be turned into text (`start_of_misspelt`).
-/

namespace GuidedDecoding

/-! ### Decoding -/

namespace Lexicon

variable {l : Lexicon}

/-- A lexicon that is readable has a text for all tokens. -/
theorem Readable.decode (h : l.Readable) (ids : List TokenId) : ∃ text, l.decode ids = .ok text := by
  obtain ⟨table, ht⟩ := exists_table_iff.mpr h
  unfold Lexicon.decode decoder
  rw [ht]
  exact ⟨_, rfl⟩

/-- A lexicon that is not readable has a text for no tokens. -/
theorem exists_cause_of_not_readable (h : ¬ l.Readable) :
    ∃ cause, l.Misspelt cause ∧ ∀ ids, l.decode ids = .error (.setup (.unreadableVocabulary l.encoding cause)) := by
  cases ht : l.table with
  | ok table => exact absurd (exists_table_iff.mp ⟨table, ht⟩) h
  | error e =>
    obtain ⟨cause, rfl, hcause⟩ := table_eq_error ht
    refine ⟨cause, hcause, fun ids => ?_⟩
    unfold Lexicon.decode decoder
    rw [ht]

end Lexicon

namespace Detokenizer

variable {d : Detokenizer} {l : Lexicon}

/-- No push and no flush fails where the lexicon is readable. -/
theorem push_of_lexicon (hd : d.decoder = l.decoder) (h : l.Readable) :
    (∀ id, ∃ d' chunk, d.push id = (d', .ok chunk)) ∧ ∃ d' chunk, d.flush = (d', .ok chunk) := by
  have hdecode (ids : List TokenId) : ∃ text, d.decoder.decode ids = .ok text := by
    rw [hd]
    exact h.decode ids
  have htokenwise : d.decoder.FailsTokenwise := by
    rw [hd]
    exact l.failsTokenwise_decoder
  have hread : d.Readable := Or.inr (hdecode d.segment)
  refine ⟨fun id => ?_, flush_of_readable hread⟩
  obtain ⟨text, htext⟩ := hdecode [id]
  obtain ⟨d', chunk, hpush, -⟩ := push_of_ok hread htokenwise htext
  exact ⟨d', chunk, hpush⟩

/-- Every push fails where no tokens have a text. -/
theorem push_of_all_error {e : Failure} (h : ∀ ids, d.decoder.decode ids = .error e) (id : TokenId) :
    (d.push id).2 = .error e := by
  unfold push
  dsimp only
  rw [h]

end Detokenizer

/-! ### Looking everything up again -/

def Recognizer.reread (r : Recognizer) : Except Failure Recognizer :=
  match r.progress with
  | .free => .ok r
  | .walk _ walk => do return { r with progress := .walk (← r.lexicon.table) walk }

/-- Looking the bytes up again finds the same ones. -/
theorem Recognizer.Follows.reread {r : Recognizer} {l : Lexicon} {c : Constraint} {bytes : Bytes}
    (h : r.Follows l c bytes) : r.reread = .ok r := by
  unfold Recognizer.reread
  split
  · rfl
  · next table walk hw =>
    have htable : r.lexicon.table = .ok table := by
      rw [h.1]
      exact h.table_eq hw
    rw [htable]
    show Except.ok { r with progress := .walk table walk } = .ok r
    rw [← hw]

namespace Matcher

variable {l : Lexicon} {c : Constraint} {m : Matcher}

/-- A call that relies on nothing looked up before: the constraint is bound again to start over, and for any other
call the bytes of the tokens are looked up again. -/
def callAnew (m : Matcher) : Call → Except Failure (Matcher × Answer)
  | .reset => do return (← m.reset, .done)
  | q => do return ({ m with recognizer := ← m.recognizer.reread }).call q

/-- Only a pattern needs the bytes of all tokens. -/
theorem exists_bind_iff : (∃ r, c.bind l = .ok r) ↔ c = .free ∨ l.Readable := by
  cases c with
  | free => exact iff_of_true ⟨_, rfl⟩ (Or.inl rfl)
  | pattern p =>
    rw [or_iff_right (by simp), ← Lexicon.exists_table_iff]
    constructor
    · rintro ⟨r, hr⟩
      obtain ⟨table, ht, -⟩ := exists_table_of_bind hr
      exact ⟨table, ht⟩
    · rintro ⟨table, ht⟩
      exact ⟨_, bind_eq_ok ht⟩

/-- What was looked up when the matcher was started is as good as looking it up again. -/
theorem Bound.callAnew (h : Bound l c m) (q : Call) : m.callAnew q = .ok (m.call q) := by
  obtain ⟨bytes, hfollows⟩ := h.follows
  have hread : (m.recognizer.reread >>= fun r => .ok (({ m with recognizer := r } : Matcher).call q)) =
      .ok (m.call q) := by
    rw [hfollows.reread]
    rfl
  cases q with
  | reset =>
    obtain ⟨start, hstart, hreset⟩ := h.exists_reset
    unfold Matcher.callAnew
    rw [h.call_reset hstart, hreset]
    rfl
  | accept id => exact hread
  | mask => exact hread
  | fill buffer => exact hread

/-! ### Starting -/

/-- A matcher starts exactly if every stop token has a slot and, under a pattern, the bytes of all tokens are known.
Whatever is asked of it then gives the same with everything looked up again. If the bytes of all tokens are known no
decode, push or flush fails either; otherwise each decode and each push does, with one and the same failure. -/
theorem start_checks (l : Lexicon) (c : Constraint) :
    ((∃ m, Matcher.start l c = .ok m) ↔
        (∀ id ∈ l.stop, id.toNat < l.size) ∧ (c = .free ∨ l.Readable)) ∧
      (∀ m, Reachable l c m → ∀ q, m.callAnew q = .ok (m.call q)) ∧
      (l.Readable →
        (∀ ids, ∃ text, l.decode ids = .ok text) ∧
          ∀ d : Detokenizer, d.decoder = l.decoder →
            (∀ id, ∃ d' chunk, d.push id = (d', .ok chunk)) ∧ ∃ d' chunk, d.flush = (d', .ok chunk)) ∧
      (¬ l.Readable →
        ∃ cause, l.Misspelt cause ∧
          (∀ ids, l.decode ids = .error (.setup (.unreadableVocabulary l.encoding cause))) ∧
            ∀ d : Detokenizer, d.decoder = l.decoder →
              ∀ id, (d.push id).2 = .error (.setup (.unreadableVocabulary l.encoding cause))) := by
  refine ⟨?_, fun m hm q => hm.bound.callAnew q, fun h => ⟨h.decode, fun d hd => Detokenizer.push_of_lexicon hd h⟩, ?_⟩
  · rw [exists_start_iff, exists_bind_iff]
  · intro h
    obtain ⟨cause, hcause, hdecode⟩ := Lexicon.exists_cause_of_not_readable h
    refine ⟨cause, hcause, hdecode, fun d hd => Detokenizer.push_of_all_error ?_⟩
    rw [hd]
    exact hdecode

/-- One token in the frame of a byte that holds no number. -/
def misspelt : Lexicon := { Lexicon.ofSurfaces ["<0xGG>"] [] with encoding := .byteFallback }

/-- Its one token has no bytes. -/
theorem not_readable_misspelt : ¬ misspelt.Readable := by
  intro h
  obtain ⟨bytes, hbytes⟩ := h 0 "<0xGG>" rfl rfl
  have hfail : misspelt.encoding.bytes "<0xGG>" = .error ⟨"<0xGG>"⟩ := by cbv
  cases hfail.symm.trans hbytes

/-- Behind `a` a matcher of `ab` can look everything up again, to start over as well; its letters have a text, and
the token of `misspelt` has none. -/
theorem start_checks_ab :
    Reachable LogitGate.letters (.pattern LogitGate.abPattern) (LogitGate.abMatcher.accept 0).1 ∧
      (LogitGate.abMatcher.accept 0).1.callAnew .reset = .ok ((LogitGate.abMatcher.accept 0).1.call .reset) ∧
      LogitGate.letters.Readable ∧ (∃ text, LogitGate.letters.decode [0, 1] = .ok text) ∧
      ¬ misspelt.Readable ∧ ∃ e, misspelt.decode [0] = .error e := by
  have hbehind : Reachable LogitGate.letters (.pattern LogitGate.abPattern) (LogitGate.abMatcher.accept 0).1 :=
    .call (.accept 0) (.start start_abMatcher)
  have hchecks := start_checks LogitGate.letters (.pattern LogitGate.abPattern)
  have hread : LogitGate.letters.Readable := (hchecks.1.mp ⟨_, start_abMatcher⟩).2.resolve_left (by simp)
  obtain ⟨cause, -, hdecode, -⟩ := (start_checks misspelt .free).2.2.2 not_readable_misspelt
  exact ⟨hbehind, hchecks.2.1 _ hbehind .reset, hread, (hchecks.2.2.1 hread).1 [0, 1], not_readable_misspelt, _,
    hdecode [0]⟩

/-- The vocabulary of `misspelt` cannot be read. Under a pattern no matcher starts; without a grammar one does, it
takes the token, and the token has no text. -/
theorem start_of_misspelt :
    Matcher.start misspelt (.pattern LogitGate.abPattern) =
        .error (.setup (.unreadableVocabulary .byteFallback ⟨"<0xGG>"⟩)) ∧
      ∃ m, Matcher.start misspelt .free = .ok m ∧ ¬ misspelt.Readable ∧ (m.accept 0).2 = .continues ∧
        (({ decoder := misspelt.decoder } : Detokenizer).push 0).2 =
          .error (.setup (.unreadableVocabulary .byteFallback ⟨"<0xGG>"⟩)) := by
  exact ⟨by cbv, _, rfl, not_readable_misspelt, by cbv, by cbv⟩

end Matcher
end GuidedDecoding
