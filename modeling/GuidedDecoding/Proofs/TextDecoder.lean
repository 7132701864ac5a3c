import GuidedDecoding.Proofs.Detokenizer
import GuidedDecoding.Tokenizer.Words

/-!
# Where the text of tokens cannot be told

A decoder may fail. That of a lexicon fails on every list of tokens or on none, according to whether the bytes of
its tokens are known, and that of a tokenizer of words never fails. What follows needs less, namely that it depends
on the next token alone whether a text can go on (`TextDecoder.FailsTokenwise`). Then the answer of a detokenizer is
a failure exactly where the token by itself has no text, whatever segment it comes behind (`push_of_error`,
`push_of_ok`).
-/

namespace GuidedDecoding

/-- Behind tokens that have a text a decoder fails with a token as it does with the token by itself. -/
def TextDecoder.FailsTokenwise (decoder : TextDecoder) : Prop :=
  ∀ (front : List TokenId) (text : String), decoder.decode front = .ok text → ∀ (id : TokenId) (e : Failure),
    decoder.decode (front ++ [id]) = .error e ↔ decoder.decode [id] = .error e

/-- The bytes of all tokens are known, or no tokens have a text. -/
theorem Lexicon.failsTokenwise_decoder (l : Lexicon) : l.decoder.FailsTokenwise := by
  unfold decoder
  cases l.table with
  | ok table => exact fun _ _ _ _ _ => iff_of_false nofun nofun
  | error e => exact fun _ _ htext => nomatch htext

/-- A decoder that never fails does so tokenwise. -/
theorem TextDecoder.failsTokenwise_of_total {decoder : TextDecoder} (h : ∀ ids, ∃ text, decoder.decode ids = .ok text) :
    decoder.FailsTokenwise := by
  intro front _ _ id e
  obtain ⟨whole, hwhole⟩ := h (front ++ [id])
  obtain ⟨text, htext⟩ := h [id]
  rw [hwhole, htext]
  exact iff_of_false (by simp) (by simp)

/-- A tokenizer that can tell the text of any tokens is a decoder that never fails. -/
theorem Tokenizer.failsTokenwise_decoder {t : Tokenizer} (h : ∀ ids, ∃ text, t.text? ids true = some text) :
    t.decoder.FailsTokenwise := by
  apply TextDecoder.failsTokenwise_of_total
  intro ids
  obtain ⟨text, htext⟩ := h ids
  exact ⟨text, decode_eq_ok_iff.mpr htext⟩

/-- Decoding words never fails, so it fails with no token. -/
theorem WordTokenizer.failsTokenwise_decoder (t : WordTokenizer) : t.tokenizer.decoder.FailsTokenwise :=
  Tokenizer.failsTokenwise_decoder fun _ => ⟨_, rfl⟩

namespace Detokenizer

variable {d : Detokenizer} {id : TokenId} {text : String} {e : Failure}

/-- The segment is empty, or it has a text. -/
def Readable (d : Detokenizer) : Prop := d.segment = [] ∨ ∃ text, d.decoder.decode d.segment = .ok text

/-- The segment with the next token has a text exactly if the token has one. -/
theorem decode_concat_eq_error (hd : d.Readable) (h : d.decoder.FailsTokenwise) :
    d.decoder.decode (d.segment ++ [id]) = .error e ↔ d.decoder.decode [id] = .error e := by
  rcases hd with hnil | ⟨text, htext⟩
  · rw [hnil, List.nil_append]
  · exact h d.segment text htext id e

/-- A token without a text fails. -/
theorem push_of_error (hd : d.Readable) (h : d.decoder.FailsTokenwise) (hid : d.decoder.decode [id] = .error e) :
    ∃ d', d.push id = (d', .error e) := by
  unfold push
  dsimp only
  rw [(decode_concat_eq_error hd h).mpr hid]
  exact ⟨_, rfl⟩

theorem segment_release (d : Detokenizer) (text : String) : (d.release text).1.segment = d.segment := by
  unfold release
  cases Utf8.dropBytes? d.emitted text.toList <;> rfl

/-- Where a token has been taken in the segment has a text. -/
theorem readable_of_push {d' : Detokenizer} {chunk : String} (h : d.push id = (d', .ok chunk)) : d'.Readable := by
  unfold push at h
  dsimp only at h
  cases hsegment : d.decoder.decode (d.segment ++ [id]) with
  | error e =>
    rw [hsegment] at h
    cases h
  | ok whole =>
    rw [hsegment] at h
    dsimp only at h
    split at h
    · cases h
      exact Or.inr ⟨whole, hsegment⟩
    · -- What is given out is no part of the segment, which is that of the text or the token alone.
      have hdecoder := decoder_release { d with segment := d.segment ++ [id] } whole
      have hrelease := segment_release { d with segment := d.segment ++ [id] } whole
      generalize ({ d with segment := d.segment ++ [id] } : Detokenizer).release whole = released
        at hdecoder hrelease h
      obtain ⟨released, chunk'⟩ := released
      dsimp only at hdecoder hrelease h
      split at h
      · rw [restart] at h
        dsimp only at h
        cases hid : released.decoder.decode [id] with
        | error e =>
          rw [hid] at h
          cases h
        | ok text =>
          rw [hid] at h
          cases h
          exact Or.inr ⟨text, hid⟩
      · cases h
        exact Or.inr ⟨whole, by rw [hrelease, hdecoder]; exact hsegment⟩

/-- A token with a text is taken in, and the segment has a text behind it. -/
theorem push_of_ok (hd : d.Readable) (h : d.decoder.FailsTokenwise) (hid : d.decoder.decode [id] = .ok text) :
    ∃ d' chunk, d.push id = (d', .ok chunk) ∧ d'.Readable := by
  suffices hpush : ∃ d' chunk, d.push id = (d', .ok chunk) by
    obtain ⟨d', chunk, hpush⟩ := hpush
    exact ⟨d', chunk, hpush, readable_of_push hpush⟩
  unfold push
  dsimp only
  -- the segment with the token cannot be decoded only if the token by itself cannot
  cases hsegment : d.decoder.decode (d.segment ++ [id]) with
  | error e =>
    rw [(decode_concat_eq_error hd h).mp hsegment] at hid
    cases hid
  | ok whole =>
    dsimp only
    split
    · exact ⟨_, _, rfl⟩
    · have hdecoder := decoder_release { d with segment := d.segment ++ [id] } whole
      generalize ({ d with segment := d.segment ++ [id] } : Detokenizer).release whole = released at hdecoder ⊢
      obtain ⟨released, chunk⟩ := released
      dsimp only at hdecoder ⊢
      rw [← hdecoder] at hid
      split
      · rw [restart]
        dsimp only
        rw [hid]
        exact ⟨_, _, rfl⟩
      · exact ⟨_, _, rfl⟩

/-- What is held back can be given out. -/
theorem flush_of_readable (hd : d.Readable) : ∃ d' chunk, d.flush = (d', .ok chunk) := by
  unfold flush
  split
  · exact ⟨_, _, rfl⟩
  · next hne =>
    rcases hd with hnil | ⟨text, htext⟩
    · rw [hnil] at hne
      exact absurd rfl hne
    · rw [htext]
      exact ⟨_, _, rfl⟩

end Detokenizer

end GuidedDecoding
