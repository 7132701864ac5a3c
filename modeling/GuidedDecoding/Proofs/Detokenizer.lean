import GuidedDecoding.Detokenizer
import GuidedDecoding.Vocabulary.Lexicon
import GuidedDecoding.Proofs.Text.Utf8

/-!
# Chunks and whole texts

A detokenizer gives out a text in chunks. Where tokens stand for bytes, the chunks so far are the beginning
of the text of all tokens so far, all of it unless it ends in a replacement character, and flushing gives the
rest (`pushAll_agrees`).

The invariant is `Caught`. The tokens so far fall into those whose text is out and those that are held back;
the segment ends in the tokens that are held back, and begins with some whose text is out. Both texts that
are out end between characters, so whatever comes is read alike behind all tokens and behind the segment.
-/

namespace GuidedDecoding

def TextDecoder.ofBytes (bytes : TokenId → Bytes) : TextDecoder :=
  ⟨fun ids => .ok (Utf8.decode (ids.flatMap bytes))⟩

/-- A lexicon whose tokens can be read decodes by their bytes. -/
theorem Lexicon.decoder_eq {l : Lexicon} {table : Array Bytes} (h : l.table = .ok table) :
    l.decoder = .ofBytes (l.contribution table) := by
  unfold Lexicon.decoder
  rw [h]
  rfl

namespace Detokenizer

open Utf8 (Reading replacement)

/-- Takes in tokens one by one: the chunk of each, unless the decoder fails. -/
def pushAll (d : Detokenizer) : List TokenId → Detokenizer × Except Failure (List String)
  | [] => (d, .ok [])
  | id :: ids =>
    match d.push id with
    | (d, .error e) => (d, .error e)
    | (d, .ok chunk) =>
      match d.pushAll ids with
      | (d, .error e) => (d, .error e)
      | (d, .ok chunks) => (d, .ok (chunk :: chunks))

def textOf (bytes : TokenId → Bytes) (ids : List TokenId) : List Char :=
  Reading.between.chars (ids.flatMap bytes)

/-- The text of the tokens ends between characters, and not in a replacement. -/
structure Settled (bytes : TokenId → Bytes) (ids : List TokenId) : Prop where
  between : Reading.between.after (ids.flatMap bytes) = .between
  last_ne : (textOf bytes ids).getLast? ≠ some replacement

/-- The detokenizer has given out the text of `out` and holds back that of `held`; its segment begins with
`base`, which has been given out. -/
structure Holding (bytes : TokenId → Bytes) (d : Detokenizer) (out base held : List TokenId) : Prop where
  decoder_eq : d.decoder = .ofBytes bytes
  segment_eq : d.segment = base ++ held
  emitted_eq : d.emitted = Utf8.byteLength (textOf bytes base)
  out_settled : Settled bytes out
  base_settled : Settled bytes base
  held_last : held ≠ [] → (textOf bytes held).getLast? = some replacement

def Caught (bytes : TokenId → Bytes) (d : Detokenizer) (ids : List TokenId) (chars : List Char) : Prop :=
  ∃ out base held, ids = out ++ held ∧ chars = textOf bytes out ∧ Holding bytes d out base held

variable {bytes : TokenId → Bytes} {d : Detokenizer} {ids out base held : List TokenId} {id : TokenId}
  {chars : List Char}

/-! ### Texts of tokens -/

theorem textOf_nil : textOf bytes [] = [] := rfl

theorem settled_nil : Settled bytes [] := ⟨rfl, by simp [textOf_nil]⟩

/-- Behind a settled text comes the text of what follows, read by itself. -/
theorem Settled.textOf_append (h : Settled bytes base) (ids : List TokenId) :
    textOf bytes (base ++ ids) = textOf bytes base ++ textOf bytes ids := by
  unfold textOf
  rw [List.flatMap_append, Reading.chars_append_of_between h.between]

/-- A text that does not end in a replacement is settled. -/
theorem settled_of_last_ne (h : (textOf bytes ids).getLast? ≠ some replacement) : Settled bytes ids :=
  ⟨Reading.after_eq_between h, h⟩

/-- What comes behind one settled text and leaves it settled does so behind any other. -/
theorem Settled.append (hout : Settled bytes out) (hbase : Settled bytes base)
    (h : Settled bytes (base ++ ids)) : Settled bytes (out ++ ids) := by
  have hafter := h.between
  have hlast := h.last_ne
  rw [List.flatMap_append, Reading.after_append, hbase.between] at hafter
  rw [hbase.textOf_append, List.getLast?_append] at hlast
  constructor
  · rw [List.flatMap_append, Reading.after_append, hout.between, hafter]
  · rw [hout.textOf_append, List.getLast?_append]
    -- Where `ids` has no text the end is that of `out`; otherwise it is that of `base ++ ids`, which is
    -- settled.
    cases hids : (textOf bytes ids).getLast? with
    | none => exact hout.last_ne
    | some c =>
      rw [hids] at hlast
      exact hlast

/-- A replacement behind a settled text is not that of the settled text. -/
theorem Settled.last_of_append (hbase : Settled bytes base)
    (h : (textOf bytes (base ++ ids)).getLast? = some replacement) :
    (textOf bytes ids).getLast? = some replacement := by
  rw [hbase.textOf_append, List.getLast?_append] at h
  cases hids : (textOf bytes ids).getLast? with
  | none =>
    rw [hids] at h
    exact absurd h hbase.last_ne
  | some c =>
    rw [hids] at h
    exact h

theorem endsIn_iff (c : Char) (cs : List Char) :
    endsIn c (String.ofList cs) = true ↔ cs.getLast? = some c := by
  simp [endsIn]

/-- Where the text of several tokens ends in a line feed, the text of the last one alone does so too, or
there is none. -/
theorem settled_singleton (h : (textOf bytes (ids ++ [id])).getLast? = some '\n') :
    Settled bytes [id] := by
  -- The last byte of all tokens is the line feed, and it is that of the last token if that has any.
  obtain ⟨front, hfront⟩ := Reading.standing_between.exists_append_newline h
  rw [List.flatMap_append, List.flatMap_singleton] at hfront
  rcases List.eq_nil_or_concat (bytes id) with hnone | ⟨rest, b, hrest⟩
  · constructor <;> simp [textOf, hnone, Reading.chars, Reading.finish]
  · have hb : b = 0x0A := by
      rw [hrest, List.concat_eq_append, ← List.append_assoc] at hfront
      exact List.singleton_inj.mp (List.append_inj_right' hfront rfl)
    rw [List.concat_eq_append, hb] at hrest
    obtain ⟨hafter, hlast⟩ := Reading.standing_between.after_append_newline rest
    constructor
    · rw [List.flatMap_singleton, hrest]
      exact hafter
    · unfold textOf
      rw [List.flatMap_singleton, hrest, hlast]
      decide

/-! ### The decoder stays -/

theorem decoder_release (d : Detokenizer) (text : String) : (d.release text).1.decoder = d.decoder := by
  unfold release
  cases Utf8.dropBytes? d.emitted text.toList <;> rfl

theorem decoder_restart (d : Detokenizer) (id : TokenId) : (d.restart id).1.decoder = d.decoder := by
  unfold restart
  dsimp only
  cases d.decoder.decode [id] <;> rfl

/-- No push changes what turns tokens into text. -/
theorem decoder_push (d : Detokenizer) (id : TokenId) : (d.push id).1.decoder = d.decoder := by
  unfold push
  dsimp only
  cases d.decoder.decode (d.segment ++ [id]) with
  | error e => rfl
  | ok text =>
    dsimp only
    split
    · rfl
    -- `release` is generalized before the split: all that matters of it is the decoder that it leaves
    · have hrelease := decoder_release { d with segment := d.segment ++ [id] } text
      generalize ({ d with segment := d.segment ++ [id] } : Detokenizer).release text = released at hrelease ⊢
      obtain ⟨d', chunk⟩ := released
      dsimp only at hrelease ⊢
      split
      · have hrestart := decoder_restart d' id
        generalize d'.restart id = restarted at hrestart ⊢
        obtain ⟨d'', e | _⟩ := restarted <;> exact hrestart.trans hrelease
      · exact hrelease

theorem decoder_flush (d : Detokenizer) : d.flush.1.decoder = d.decoder := by
  unfold flush
  split
  · rfl
  · cases d.decoder.decode d.segment with
    | error e => rfl
    | ok text => exact decoder_release d text

/-! ### One step -/

/-- A text that goes on behind what has been given out gives the rest. -/
theorem release_append {d : Detokenizer} {a b : List Char} (h : d.emitted = Utf8.byteLength a) :
    d.release (String.ofList (a ++ b)) =
      ({ d with emitted := Utf8.byteLength (a ++ b) }, String.ofList b) := by
  unfold release
  rw [String.toList_ofList, h, Utf8.dropBytes?_byteLength_append]

/-- A new detokenizer has taken in nothing and given out nothing. -/
theorem caught_start : Caught bytes { decoder := .ofBytes bytes } [] [] :=
  ⟨[], [], [], rfl, rfl, rfl, rfl, rfl, settled_nil, settled_nil, fun h => absurd rfl h⟩

/-- Taking in a token gives a chunk, and then that is out too. -/
theorem Caught.push (h : Caught bytes d ids chars) (id : TokenId) :
    ∃ next chunk, d.push id = (next, .ok chunk) ∧
      Caught bytes next (ids ++ [id]) (chars ++ chunk.toList) := by
  obtain ⟨out, base, held, rfl, rfl, hd⟩ := h
  have hsegment : d.segment ++ [id] = base ++ (held ++ [id]) := by
    rw [hd.segment_eq, List.append_assoc]
  have hdecode : d.decoder.decode (d.segment ++ [id]) =
      .ok (String.ofList (textOf bytes (base ++ (held ++ [id])))) := by
    rw [hd.decoder_eq, hsegment]
    rfl
  unfold Detokenizer.push
  simp only [hdecode]
  by_cases hback : (textOf bytes (base ++ (held ++ [id]))).getLast? = some replacement
  · -- The text is held back: the replacement at its end is one of the tokens that are not out yet.
    rw [if_pos ((endsIn_iff _ _).mpr hback)]
    exact ⟨_, _, rfl, out, base, held ++ [id], by simp, by simp, hd.decoder_eq, hsegment, hd.emitted_eq,
      hd.out_settled, hd.base_settled, fun _ => hd.base_settled.last_of_append hback⟩
  · -- All of the segment is out then, so the tokens that were held back are settled behind both texts.
    rw [if_neg (fun hends => hback ((endsIn_iff _ _).mp hends))]
    have hsegment_settled : Settled bytes (base ++ (held ++ [id])) := settled_of_last_ne hback
    have hout_settled := hd.out_settled.append hd.base_settled hsegment_settled
    have hout_text := hd.out_settled.textOf_append (held ++ [id])
    have htext := hd.base_settled.textOf_append (held ++ [id])
    rw [htext, release_append (d := { d with segment := d.segment ++ [id] }) hd.emitted_eq, ← htext]
    by_cases hnewline : (textOf bytes (base ++ (held ++ [id]))).getLast? = some '\n'
    · -- The next segment begins with the token alone, whose text is out.
      rw [if_pos ((endsIn_iff _ _).mpr hnewline)]
      have hdecode_one : d.decoder.decode [id] = .ok (String.ofList (textOf bytes [id])) := by
        rw [hd.decoder_eq]
        rfl
      have hone : Settled bytes [id] := by
        rw [← List.append_assoc] at hnewline
        exact settled_singleton hnewline
      simp only [restart, hdecode_one]
      exact ⟨_, _, rfl, out ++ (held ++ [id]), [id], [], by simp, by simp [hout_text], hd.decoder_eq, rfl,
        by simp, hout_settled, hone, fun hne => absurd rfl hne⟩
    · rw [if_neg (fun hends => hnewline ((endsIn_iff _ _).mp hends))]
      exact ⟨_, _, rfl, out ++ (held ++ [id]), base ++ (held ++ [id]), [], by simp, by simp [hout_text],
        hd.decoder_eq, by simp [hsegment], rfl, hout_settled, hsegment_settled, fun hne => absurd rfl hne⟩

/-- What is out is the beginning of the text of all tokens, and all of it unless that ends in a
replacement. -/
theorem Caught.beginning (h : Caught bytes d ids chars) :
    chars <+: textOf bytes ids ∧
      ((textOf bytes ids).getLast? ≠ some replacement → chars = textOf bytes ids) := by
  obtain ⟨out, base, held, rfl, rfl, hd⟩ := h
  rw [hd.out_settled.textOf_append held]
  refine ⟨List.prefix_append _ _, ?_⟩
  intro hne
  -- Tokens that are held back end in a replacement, so nothing is.
  cases held with
  | nil => rw [textOf_nil, List.append_nil]
  | cons a rest =>
    rw [List.getLast?_append, hd.held_last (List.cons_ne_nil a rest)] at hne
    exact absurd rfl hne

/-- Flushing gives what is held back. -/
theorem Caught.flush (h : Caught bytes d ids chars) :
    ∃ next rest, d.flush = (next, .ok rest) ∧ chars ++ rest.toList = textOf bytes ids := by
  obtain ⟨out, base, held, rfl, rfl, hd⟩ := h
  have htext := hd.base_settled.textOf_append held
  rw [hd.out_settled.textOf_append held]
  unfold Detokenizer.flush
  by_cases hempty : d.segment.isEmpty = true
  -- Nothing is held back in an empty segment, so nothing is due.
  · rw [if_pos hempty]
    rw [List.isEmpty_iff, hd.segment_eq, List.append_eq_nil_iff] at hempty
    refine ⟨_, _, rfl, ?_⟩
    rw [hempty.2, textOf_nil]
    rfl
  · rw [if_neg hempty]
    have hdecode : d.decoder.decode d.segment = .ok (String.ofList (textOf bytes (base ++ held))) := by
      rw [hd.decoder_eq, hd.segment_eq]
      rfl
    simp only [hdecode]
    rw [htext, release_append hd.emitted_eq]
    exact ⟨_, _, rfl, by simp⟩

/-! ### Any number of tokens -/

/-- What every push keeps of a detokenizer, its tokens and what it has given out is kept by all of them together, and
then none of them fails. -/
theorem pushAll_induction {motive : Detokenizer → List TokenId → List Char → Prop}
    (hpush : ∀ {d ids chars}, motive d ids chars → ∀ id, ∃ next chunk, d.push id = (next, .ok chunk) ∧
      motive next (ids ++ [id]) (chars ++ chunk.toList))
    (h : motive d ids chars) (more : List TokenId) :
    ∃ next chunks, d.pushAll more = (next, .ok chunks) ∧ chunks.length = more.length ∧
      motive next (ids ++ more) (chars ++ chunks.flatMap String.toList) := by
  induction more generalizing d ids chars with
  | nil => exact ⟨d, [], rfl, rfl, by simpa using h⟩
  | cons id more ih =>
    obtain ⟨d₁, chunk, hone, hkept⟩ := hpush h id
    obtain ⟨d₂, chunks, hrest, hlength, hkept'⟩ := ih hkept
    refine ⟨d₂, chunk :: chunks, ?_, by simp [hlength], by simpa using hkept'⟩
    rw [Detokenizer.pushAll, hone]
    simp only [hrest]

/-- Whatever tokens come, their chunks make up a beginning of the text of all of them, and the whole text
unless it ends in a replacement character; flushing gives what is left of it. -/
theorem pushAll_agrees {l : Lexicon} {table : Array Bytes} (h : l.table = .ok table)
    (ids : List TokenId) :
    ∃ d chunks text, Detokenizer.pushAll { decoder := l.decoder } ids = (d, .ok chunks) ∧
      chunks.length = ids.length ∧ l.decode ids = .ok text ∧
      chunks.flatMap String.toList <+: text.toList ∧
      (endsIn replacement text = false → chunks.flatMap String.toList = text.toList) ∧
      ∃ flushed rest, d.flush = (flushed, .ok rest) ∧
        chunks.flatMap String.toList ++ rest.toList = text.toList := by
  have hdecoder := Lexicon.decoder_eq h
  -- the decoder of a lexicon is one of bytes, for which the invariant holds at the start
  have hstart : Caught (l.contribution table) { decoder := .ofBytes (l.contribution table) } [] [] :=
    caught_start
  obtain ⟨d, chunks, hpush, hlength, hcaught⟩ := pushAll_induction Caught.push hstart ids
  rw [List.nil_append, List.nil_append] at hcaught
  obtain ⟨hbeginning, hall⟩ := hcaught.beginning
  refine ⟨d, chunks, String.ofList (textOf (l.contribution table) ids), ?_, hlength, ?_, ?_, ?_, ?_⟩
  · rw [hdecoder]
    exact hpush
  · rw [Lexicon.decode, hdecoder]
    rfl
  · rw [String.toList_ofList]
    exact hbeginning
  · intro hends
    rw [String.toList_ofList]
    apply hall
    intro hlast
    rw [(endsIn_iff _ _).mpr hlast] at hends
    cases hends
  · rw [String.toList_ofList]
    exact hcaught.flush

/-- The two bytes of one character, a line feed, and an end. -/
def halves : Lexicon where
  vocabulary := .ofArray #["<0xC3>", "<0xA9>", "\n", "</s>"]
  encoding := .byteFallback
  stop := .ofList [3]

/-- A character in halves, a line feed, an end, an id beyond the vocabulary and half a character. -/
theorem pushAll_agrees_on_halves :
    halves.table = .ok #[[0xC3], [0xA9], [0x0A], [0x3C, 0x2F, 0x73, 0x3E]] ∧
      ∃ d chunks flushed rest,
        Detokenizer.pushAll { decoder := halves.decoder } [0, 1, 2, 3, 9, 0] = (d, .ok chunks) ∧
          d.flush = (flushed, .ok rest) ∧
          chunks.flatMap String.toList ++ rest.toList = ['é', '\n', replacement] := by
  have htable : halves.table = .ok #[[0xC3], [0xA9], [0x0A], [0x3C, 0x2F, 0x73, 0x3E]] := by cbv
  have hdecode : halves.decode [0, 1, 2, 3, 9, 0] = .ok (String.ofList ['é', '\n', replacement]) := by cbv
  obtain ⟨d, chunks, text, hpush, -, htext, -, -, flushed, rest, hflush, hall⟩ :=
    pushAll_agrees htable [0, 1, 2, 3, 9, 0]
  rw [hdecode, Except.ok.injEq] at htext
  rw [← htext, String.toList_ofList] at hall
  exact ⟨htable, d, chunks, flushed, rest, hpush, hflush, hall⟩

end Detokenizer
end GuidedDecoding
