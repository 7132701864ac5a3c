import GuidedDecoding.Proofs.Detokenizer
import GuidedDecoding.Tokenizer.Words

/-!
# Chunks of a decoder that removes leading spaces

A decoder of this shape leaves out special tokens, puts the pieces of the others together and removes spaces at the
begin of the whole (`Stripping`). A segment of a detokenizer should begin with a newline then, so that no space behind
it is at the begin of a text. What the segment really begins with is the last token, and that has no text of its own
if it is special or its piece is empty.

A push either goes on in the text or loses the newline, and the latter only with a token without text right behind
text that ends in a newline (`Pushed`). The detokenizer then stands at the begin of a text (`Follows.loose`), and if
the next text begins with a space it is removed. `pushAll_stripping` says that the chunks make up the text of all
tokens except where this happens (`LosesSpace`).
-/

namespace GuidedDecoding

/-! ### Leading spaces -/

/-- The characters without leading spaces, of which so many at most are removed if there is a limit. -/
def stripSpaces : Option Nat → List Char → List Char
  | _, [] => []
  | most, c :: cs => if most ≠ some 0 ∧ c = ' ' then stripSpaces (most.map Nat.pred) cs else c :: cs

variable {most : Option Nat} {a b : List Char}

@[simp] theorem stripSpaces_nil : stripSpaces most [] = [] := rfl

/-- As soon as a character stays, so does everything behind it. -/
theorem stripSpaces_append (h : stripSpaces most a ≠ []) : stripSpaces most (a ++ b) = stripSpaces most a ++ b := by
  fun_induction stripSpaces most a with
  | case1 => exact absurd rfl h
  | case2 most c cs hc ih =>
    rw [List.cons_append, stripSpaces, if_pos hc]
    exact ih h
  | case3 most c cs hc =>
    rw [List.cons_append, stripSpaces, if_neg hc]

/-- What is left of a text is a beginning of what is left of a longer one. -/
theorem stripSpaces_prefix_append (most : Option Nat) (a b : List Char) :
    stripSpaces most a <+: stripSpaces most (a ++ b) := by
  by_cases h : stripSpaces most a = []
  · rw [h]
    exact List.nil_prefix
  · rw [stripSpaces_append h]
    exact List.prefix_append _ _

/-- Nothing is removed but from the front. -/
theorem stripSpaces_suffix (most : Option Nat) (a : List Char) : stripSpaces most a <:+ a := by
  fun_induction stripSpaces most a with
  | case1 => exact List.suffix_rfl
  | case2 most c cs _ ih => exact ih.trans (List.suffix_cons c cs)
  | case3 => exact List.suffix_rfl

/-- Spaces are removed from a text that begins with one, and from no other. -/
theorem stripSpaces_eq_self_iff : stripSpaces most a = a ↔ ¬ (most ≠ some 0 ∧ a.head? = some ' ') := by
  cases a with
  | nil => simp
  | cons c cs =>
    rw [stripSpaces, List.head?_cons, Option.some.injEq]
    by_cases hc : most ≠ some 0 ∧ c = ' '
    · rw [if_pos hc]
      refine iff_of_false ?_ (not_not.mpr hc)
      intro h
      have hle := (stripSpaces_suffix (most.map Nat.pred) cs).length_le
      rw [h, List.length_cons] at hle
      omega
    · rw [if_neg hc]
      exact iff_of_true rfl hc

/-- A newline is no space, so it stays at the end of a text. -/
theorem getLast?_stripSpaces : (stripSpaces most a).getLast? = some '\n' ↔ a.getLast? = some '\n' := by
  fun_induction stripSpaces most a with
  | case1 => exact Iff.rfl
  | case2 most c cs hc ih =>
    rw [ih, hc.2]
    cases cs with
    | nil => simp
    | cons d ds => rw [List.getLast?_cons_cons]
  | case3 => exact Iff.rfl

/-! ### Decoders -/

/-- A decoder that leaves out special tokens, puts the pieces of the others together and removes leading spaces. -/
structure Stripping where
  /-- How many spaces are removed at most; without a limit all are. -/
  most : Option Nat := none
  special : TokenId → Bool
  piece : TokenId → String

namespace Stripping

variable {s : Stripping} {d : Detokenizer} {ids segment : List TokenId} {id : TokenId} {seen chars : List Char}

def raw (s : Stripping) (ids : List TokenId) : List Char :=
  (ids.filter fun id => !s.special id).flatMap fun id => (s.piece id).toList

def text (s : Stripping) (ids : List TokenId) : List Char := stripSpaces s.most (s.raw ids)

def decoder (s : Stripping) : TextDecoder := ⟨fun ids => .ok (String.ofList (s.text ids))⟩

@[simp] theorem raw_nil : s.raw [] = [] := rfl

theorem raw_append (front back : List TokenId) : s.raw (front ++ back) = s.raw front ++ s.raw back := by
  simp [raw]

theorem text_ne_nil (h : (s.raw ids).getLast? = some '\n') : s.text ids ≠ [] := by
  intro hnil
  have hlast : (s.text ids).getLast? = some '\n' := getLast?_stripSpaces.mpr h
  rw [hnil] at hlast
  cases hlast

/-! ### Tokens without text behind a newline -/

/-- A token without text comes behind text that ends in a newline, and the text behind it begins with a space of the
kind that is removed. -/
def LosesSpace (s : Stripping) (ids : List TokenId) : Prop :=
  s.most ≠ some 0 ∧ ∃ front id back, ids = front ++ id :: back ∧ (s.raw front).getLast? = some '\n' ∧
    s.raw [id] = [] ∧ (s.raw back).head? = some ' '

/-- The last token is without text and comes behind text that ends in a newline. -/
def Hangs (s : Stripping) (ids : List TokenId) : Prop :=
  ∃ front id, ids = front ++ [id] ∧ (s.raw front).getLast? = some '\n' ∧ s.raw [id] = []

theorem hangs_concat_iff : s.Hangs (ids ++ [id]) ↔ (s.raw ids).getLast? = some '\n' ∧ s.raw [id] = [] := by
  constructor
  · rintro ⟨front, a, heq, h⟩
    obtain ⟨rfl, hid⟩ := List.append_inj' heq rfl
    cases hid
    exact h
  · exact fun h => ⟨ids, id, rfl, h⟩

theorem Hangs.getLast?_eq (h : s.Hangs ids) : (s.raw ids).getLast? = some '\n' := by
  obtain ⟨front, id, rfl, hlast, hnone⟩ := h
  rw [raw_append, hnone, List.append_nil]
  exact hlast

/-- Tokens without text behind a newline leave the text hanging at it. -/
theorem hangs_of_raw_eq_nil {front back : List TokenId} (hlast : (s.raw front).getLast? = some '\n')
    (hid : s.raw [id] = []) (hback : s.raw back = []) : s.Hangs (front ++ id :: back) := by
  induction back using List.reverseRecOn with
  | nil => exact hangs_concat_iff.mpr ⟨hlast, hid⟩
  | append_singleton back b ih =>
    rw [raw_append, List.append_eq_nil_iff] at hback
    rw [← List.cons_append, ← List.append_assoc]
    exact hangs_concat_iff.mpr ⟨(ih hback.1).getLast?_eq, hback.2⟩

/-- One more token loses a space if the text hangs at a newline and the token begins with the space. -/
theorem losesSpace_concat_iff :
    s.LosesSpace (ids ++ [id]) ↔
      s.LosesSpace ids ∨ s.Hangs ids ∧ s.most ≠ some 0 ∧ (s.raw [id]).head? = some ' ' := by
  constructor
  · rintro ⟨hmost, front, a, back, heq, hlast, hnone, hspace⟩
    rcases List.eq_nil_or_concat back with rfl | ⟨back, b, rfl⟩
    · cases hspace
    rw [List.concat_eq_append, ← List.cons_append, ← List.append_assoc] at heq
    obtain ⟨rfl, hid⟩ := List.append_inj' heq rfl
    cases hid
    rw [List.concat_eq_append, raw_append] at hspace
    by_cases hback : s.raw back = []
    · -- The space is that of the last token, and all between it and the newline is without text.
      rw [hback, List.nil_append] at hspace
      exact Or.inr ⟨hangs_of_raw_eq_nil hlast hnone hback, hmost, hspace⟩
    · rw [List.head?_append_of_ne_nil _ hback] at hspace
      exact Or.inl ⟨hmost, front, a, back, rfl, hlast, hnone, hspace⟩
  · rintro (⟨hmost, front, a, back, rfl, hlast, hnone, hspace⟩ | ⟨⟨front, a, rfl, hlast, hnone⟩, hmost, hspace⟩)
    · refine ⟨hmost, front, a, back ++ [id], by simp, hlast, hnone, ?_⟩
      rw [raw_append, List.head?_append, hspace]
      rfl
    · exact ⟨hmost, front, a, [id], by simp, hlast, hnone, hspace⟩

/-! ### One step -/

structure Shows (s : Stripping) (d : Detokenizer) (seen : List Char) : Prop where
  decoder_eq : d.decoder = s.decoder
  emitted_eq : d.emitted = Utf8.byteLength seen
  seen_prefix : seen <+: s.text d.segment

/-- What is still to be given out of a segment if the pieces that come make up `more`. -/
def due (s : Stripping) (segment : List TokenId) (seen more : List Char) : List Char :=
  (stripSpaces s.most (s.raw segment ++ more)).drop seen.length

theorem due_append (segment ids : List TokenId) (seen more : List Char) :
    s.due (segment ++ ids) seen more = s.due segment seen (s.raw ids ++ more) := by
  rw [due, due, raw_append, List.append_assoc]

/-- What has just been given out is not due any more. -/
theorem append_due {rest : List Char} (h : seen ++ rest = s.text segment) (more : List Char) :
    rest ++ s.due segment (seen ++ rest) more = s.due segment seen more := by
  obtain ⟨tail, htail⟩ := stripSpaces_prefix_append s.most (s.raw segment) more
  rw [← text, ← h] at htail
  unfold due
  rw [← htail, List.drop_left, List.append_assoc, List.drop_left]

/-- Behind a text everything comes as it is. -/
theorem due_text (h : s.text segment ≠ []) (more : List Char) : s.due segment (s.text segment) more = more := by
  unfold due
  rw [stripSpaces_append h, ← text, List.drop_left]

/-- A push goes on in the text, or it loses the newline at its end. -/
inductive Pushed (s : Stripping) (d : Detokenizer) (seen : List Char) (id : TokenId) (next : Detokenizer)
    (chunk : List Char) : List Char → Prop
  | on {seen' : List Char} : (s.raw next.segment).getLast? = (s.raw (d.segment ++ [id])).getLast? →
      ¬ ((s.raw d.segment).getLast? = some '\n' ∧ s.raw [id] = []) →
      (∀ more, chunk ++ s.due next.segment seen' more = s.due d.segment seen (s.raw [id] ++ more)) →
      Pushed s d seen id next chunk seen'
  | lost : (s.raw d.segment).getLast? = some '\n' → s.raw [id] = [] → s.raw next.segment = [] →
      (∀ more, chunk ++ more = s.due d.segment seen more) → Pushed s d seen id next chunk []

/-- Behind a newline the segment begins anew with the token, whose text may be empty. -/
theorem exists_pushed_of_restart {chunk : List Char} (next : Detokenizer) (hdecoder : next.decoder = s.decoder)
    (hsegment : next.segment = [id]) (hemitted : next.emitted = Utf8.byteLength (s.text [id]))
    (hlast : (s.raw (d.segment ++ [id])).getLast? = some '\n')
    (hdue : ∀ more, chunk ++ more = s.due d.segment seen (s.raw [id] ++ more)) :
    ∃ seen', s.Shows next seen' ∧ s.Pushed d seen id next chunk seen' := by
  have hshows : s.Shows next (s.text [id]) := ⟨hdecoder, hemitted, by rw [hsegment]⟩
  rw [raw_append] at hlast
  by_cases hnone : s.raw [id] = []
  · have hempty : s.text [id] = [] := by rw [text, hnone, stripSpaces_nil]
    rw [hempty] at hshows
    rw [hnone, List.append_nil] at hlast
    refine ⟨[], hshows, .lost hlast hnone (hsegment ▸ hnone) ?_⟩
    intro more
    rw [hdue, hnone, List.nil_append]
  · refine ⟨s.text [id], hshows, .on ?_ (fun hboth => hnone hboth.2) ?_⟩
    · rw [hsegment, raw_append, List.getLast?_append_of_ne_nil _ hnone]
    · rw [List.getLast?_append_of_ne_nil _ hnone] at hlast
      intro more
      rw [hsegment, due_text (text_ne_nil hlast), hdue]

/-- A push does what `Pushed` says, with some part of the text of the segment given out behind it. -/
theorem Shows.push (h : s.Shows d seen) (id : TokenId) :
    ∃ next chunk seen', d.push id = (next, .ok chunk) ∧ s.Shows next seen' ∧
      s.Pushed d seen id next chunk.toList seen' := by
  obtain ⟨rest, hrest⟩ := h.seen_prefix.trans (stripSpaces_prefix_append s.most (s.raw d.segment) (s.raw [id]))
  rw [← raw_append, ← text] at hrest
  have hdecode : d.decoder.decode (d.segment ++ [id]) = .ok (String.ofList (seen ++ rest)) := by
    rw [h.decoder_eq, hrest]
    rfl
  -- what is due once `rest` is out too, in terms of what was due before
  have hout (more : List Char) : rest ++ s.due (d.segment ++ [id]) (seen ++ rest) more =
      s.due d.segment seen (s.raw [id] ++ more) := by
    rw [append_due hrest, due_append]
  have hnewline : (seen ++ rest).getLast? = some '\n' ↔ (s.raw (d.segment ++ [id])).getLast? = some '\n' := by
    rw [hrest, text, getLast?_stripSpaces]
  have hstill (hnot : (seen ++ rest).getLast? ≠ some '\n') :
      ¬ ((s.raw d.segment).getLast? = some '\n' ∧ s.raw [id] = []) := by
    rintro ⟨hlast, hnone⟩
    rw [Ne, hnewline, raw_append, hnone, List.append_nil] at hnot
    exact hnot hlast
  unfold Detokenizer.push
  simp only [hdecode]
  by_cases hback : (seen ++ rest).getLast? = some Utf8.replacement
  · -- The text is held back, and all of it is still due.
    rw [if_pos ((Detokenizer.endsIn_iff _ _).mpr hback)]
    have hnot : (seen ++ rest).getLast? ≠ some '\n' := by
      rw [hback]
      decide
    exact ⟨_, _, seen, rfl, ⟨h.decoder_eq, h.emitted_eq, rest, hrest⟩,
      .on rfl (hstill hnot) (due_append d.segment [id] seen)⟩
  rw [if_neg (fun hends => hback ((Detokenizer.endsIn_iff _ _).mp hends)),
    Detokenizer.release_append (d := { d with segment := d.segment ++ [id] }) h.emitted_eq]
  by_cases hlast : (seen ++ rest).getLast? = some '\n'
  · rw [if_pos ((Detokenizer.endsIn_iff _ _).mpr hlast)]
    -- the next segment is this token alone, which is decoded once more
    have hdecode_one : d.decoder.decode [id] = .ok (String.ofList (s.text [id])) := by
      rw [h.decoder_eq]
      rfl
    have hgiven (more : List Char) : rest ++ more = s.due d.segment seen (s.raw [id] ++ more) := by
      rw [← hout, hrest, due_text (text_ne_nil (hnewline.mp hlast))]
    simp only [Detokenizer.restart, hdecode_one, String.toList_ofList]
    obtain ⟨seen', hshows, hpushed⟩ := exists_pushed_of_restart
      ⟨d.decoder, [id], Utf8.byteLength (s.text [id])⟩ h.decoder_eq rfl rfl (hnewline.mp hlast) hgiven
    exact ⟨_, _, seen', rfl, hshows, by simpa using hpushed⟩
  · rw [if_neg (fun hends => hlast ((Detokenizer.endsIn_iff _ _).mp hends))]
    refine ⟨_, _, seen ++ rest, rfl, ⟨h.decoder_eq, rfl, ?_⟩, .on rfl (hstill hlast) ?_⟩
    · rw [hrest]
    · simpa using hout

/-- A flush gives out all that is due. -/
theorem Shows.flush (h : s.Shows d seen) :
    ∃ next chunk, d.flush = (next, .ok chunk) ∧ chunk.toList = s.due d.segment seen [] := by
  obtain ⟨rest, hrest⟩ := h.seen_prefix
  unfold Detokenizer.flush
  by_cases hempty : d.segment = []
  · refine ⟨d, "", by rw [hempty]; rfl, ?_⟩
    simp [due, hempty]
  · have hdecode : d.decoder.decode d.segment = .ok (String.ofList (seen ++ rest)) := by
      rw [h.decoder_eq, hrest]
      rfl
    rw [if_neg (by simpa using hempty)]
    simp only [hdecode, Detokenizer.release_append h.emitted_eq]
    refine ⟨_, _, rfl, ?_⟩
    rw [String.toList_ofList, due, List.append_nil, ← text, ← hrest, List.drop_left]

/-! ### Any number of tokens -/

/-- The first list arises from the second if something is left out. -/
def Lacks (a b : List Char) : Prop := a.Sublist b ∧ a ≠ b

theorem Lacks.of_sublist {a b c : List Char} (h : Lacks b c) (hab : a.Sublist b) : Lacks a c := by
  refine ⟨hab.trans h.1, ?_⟩
  rintro rfl
  exact h.2 (h.1.antisymm hab)

/-- Where a detokenizer is that has taken in `ids` and given out `chars`. -/
inductive Follows (s : Stripping) (d : Detokenizer) (ids : List TokenId) (chars : List Char) : Prop
  /-- Whatever comes is given out as it is in the text of all tokens. -/
  | kept {seen : List Char} : s.Shows d seen → (s.raw d.segment).getLast? = (s.raw ids).getLast? →
      ¬ s.Hangs ids → ¬ s.LosesSpace ids →
      (∀ more, chars ++ s.due d.segment seen more = s.due ids [] more) → Follows s d ids chars
  /-- Nothing is missing yet, but the detokenizer stands at the begin of a text. -/
  | loose : s.Shows d [] → s.raw d.segment = [] → s.Hangs ids → ¬ s.LosesSpace ids →
      (∀ more, chars ++ more = s.due ids [] more) → Follows s d ids chars
  /-- Something is missing, whatever comes. -/
  | short {seen : List Char} : s.Shows d seen → s.LosesSpace ids →
      (∀ more, Lacks (chars ++ s.due d.segment seen more) (s.due ids [] more)) → Follows s d ids chars

theorem due_of_raw_eq_nil (h : s.raw segment = []) (more : List Char) :
    s.due segment [] more = stripSpaces s.most more := by
  rw [due, h]
  rfl

theorem follows_start : s.Follows { decoder := s.decoder } [] [] := by
  refine .kept ⟨rfl, rfl, List.nil_prefix⟩ rfl ?_ ?_ fun more => rfl
  · rintro ⟨front, id, hnil, -⟩
    simp at hnil
  · rintro ⟨-, front, id, back, hnil, -⟩
    simp at hnil

section Step

variable {next : Detokenizer} {chunk seen' : List Char}

/-- Where nothing is lost, the text goes on until the newline at its end is lost. -/
theorem follows_of_kept (hnext : s.Shows next seen') (hpush : s.Pushed d seen id next chunk seen')
    (hlast : (s.raw d.segment).getLast? = (s.raw ids).getLast?) (hhangs : ¬ s.Hangs ids)
    (hloses : ¬ s.LosesSpace ids) (hdue : ∀ more, chars ++ s.due d.segment seen more = s.due ids [] more) :
    s.Follows next (ids ++ [id]) (chars ++ chunk) := by
  have hloses' : ¬ s.LosesSpace (ids ++ [id]) := by
    rw [losesSpace_concat_iff]
    tauto
  cases hpush with
  | on hlast' hstill hdue' =>
    refine .kept hnext ?_ ?_ hloses' ?_
    · rw [hlast', raw_append, raw_append, List.getLast?_append, List.getLast?_append, hlast]
    · rwa [hangs_concat_iff, ← hlast]
    · intro more
      rw [List.append_assoc, hdue', hdue, due_append]
  | lost hnewline hnone hnil hdue' =>
    refine .loose hnext hnil (hangs_concat_iff.mpr ⟨hlast ▸ hnewline, hnone⟩) hloses' ?_
    intro more
    rw [List.append_assoc, hdue', hdue, due_append, hnone, List.nil_append]

/-- At the begin of a text everything depends on the first piece that is not empty. -/
theorem follows_of_loose (hnext : s.Shows next seen') (hpush : s.Pushed d [] id next chunk seen')
    (hnil : s.raw d.segment = []) (hhangs : s.Hangs ids) (hloses : ¬ s.LosesSpace ids)
    (hdue : ∀ more, chars ++ more = s.due ids [] more) : s.Follows next (ids ++ [id]) (chars ++ chunk) := by
  cases hpush with
  | lost hnewline =>
    rw [hnil] at hnewline
    cases hnewline
  | on hlast hstill hdue' =>
    rw [raw_append, hnil, List.nil_append] at hlast
    have hout (more : List Char) : chunk ++ s.due next.segment seen' more =
        stripSpaces s.most (s.raw [id] ++ more) := by
      rw [hdue', due_of_raw_eq_nil hnil]
    by_cases hspace : s.most ≠ some 0 ∧ (s.raw [id]).head? = some ' '
    · -- The piece begins with a space, which is removed.
      refine .short hnext (losesSpace_concat_iff.mpr (Or.inr ⟨hhangs, hspace⟩)) fun more => ?_
      rw [List.append_assoc, hout, due_append, ← hdue]
      refine ⟨(stripSpaces_suffix _ _).sublist.append_left chars, fun heq => ?_⟩
      refine stripSpaces_eq_self_iff.mp (List.append_cancel_left heq) ⟨hspace.1, ?_⟩
      rw [List.head?_append, hspace.2, Option.some_or]
    have hloses' : ¬ s.LosesSpace (ids ++ [id]) := by
      rw [losesSpace_concat_iff]
      tauto
    by_cases hid : s.raw [id] = []
    · rw [hid, List.getLast?_nil, List.getLast?_eq_none_iff] at hlast
      have hseen : seen' = [] := by
        have hprefix := hnext.seen_prefix
        rw [text, hlast, stripSpaces_nil] at hprefix
        exact List.prefix_nil.mp hprefix
      have hchunk : chunk = [] := by
        have hnone := hout []
        rw [hid] at hnone
        exact (List.append_eq_nil_iff.mp hnone).1
      rw [hseen] at hnext
      refine .loose hnext hlast (hangs_concat_iff.mpr ⟨hhangs.getLast?_eq, hid⟩) hloses' fun more => ?_
      rw [hchunk, List.append_nil, due_append, hid]
      exact hdue more
    · have hstays (more : List Char) : stripSpaces s.most (s.raw [id] ++ more) = s.raw [id] ++ more := by
        rw [stripSpaces_eq_self_iff, List.head?_append_of_ne_nil _ hid]
        exact hspace
      refine .kept hnext ?_ (fun h => hid (hangs_concat_iff.mp h).2) hloses' fun more => ?_
      · rw [hlast, raw_append, List.getLast?_append_of_ne_nil _ hid]
      · rw [List.append_assoc, hout, hstays, hdue, due_append]

/-- What is missing stays missing. -/
theorem follows_of_short (hnext : s.Shows next seen') (hpush : s.Pushed d seen id next chunk seen')
    (hloses : s.LosesSpace ids)
    (hdue : ∀ more, Lacks (chars ++ s.due d.segment seen more) (s.due ids [] more)) :
    s.Follows next (ids ++ [id]) (chars ++ chunk) := by
  refine .short hnext (losesSpace_concat_iff.mpr (Or.inl hloses)) fun more => ?_
  rw [due_append, List.append_assoc]
  cases hpush with
  | on _ _ hdue' =>
    rw [hdue']
    exact hdue _
  | lost _ hnone hnil hdue' =>
    refine (hdue _).of_sublist ?_
    rw [due_of_raw_eq_nil hnil, hnone, List.nil_append, ← hdue']
    exact ((stripSpaces_suffix _ _).sublist.append_left chunk).append_left chars

end Step

theorem Follows.push (h : s.Follows d ids chars) (id : TokenId) :
    ∃ next chunk, d.push id = (next, .ok chunk) ∧ s.Follows next (ids ++ [id]) (chars ++ chunk.toList) := by
  cases h with
  | kept hd hlast hhangs hloses hdue =>
    obtain ⟨next, chunk, seen', hpush, hnext, hpushed⟩ := hd.push id
    exact ⟨next, chunk, hpush, follows_of_kept hnext hpushed hlast hhangs hloses hdue⟩
  | loose hd hnil hhangs hloses hdue =>
    obtain ⟨next, chunk, seen', hpush, hnext, hpushed⟩ := hd.push id
    exact ⟨next, chunk, hpush, follows_of_loose hnext hpushed hnil hhangs hloses hdue⟩
  | short hd hloses hdue =>
    obtain ⟨next, chunk, seen', hpush, hnext, hpushed⟩ := hd.push id
    exact ⟨next, chunk, hpush, follows_of_short hnext hpushed hloses hdue⟩

/-- Flushing gives the rest of the text, unless something is missing. -/
theorem Follows.flush (h : s.Follows d ids chars) :
    ∃ flushed rest, d.flush = (flushed, .ok rest) ∧
      (¬ s.LosesSpace ids → chars ++ rest.toList = s.text ids) ∧
      (s.LosesSpace ids → Lacks (chars ++ rest.toList) (s.text ids)) := by
  have htext : s.due ids [] [] = s.text ids := by
    rw [due, List.append_nil]
    rfl
  cases h with
  | kept hd _ _ hloses hdue =>
    obtain ⟨flushed, rest, hflush, hrest⟩ := hd.flush
    refine ⟨flushed, rest, hflush, fun _ => ?_, fun h => absurd h hloses⟩
    rw [hrest, hdue, htext]
  | loose hd hnil _ hloses hdue =>
    obtain ⟨flushed, rest, hflush, hrest⟩ := hd.flush
    refine ⟨flushed, rest, hflush, fun _ => ?_, fun h => absurd h hloses⟩
    rw [hrest, due_of_raw_eq_nil hnil, stripSpaces_nil, hdue, htext]
  | short hd hloses hdue =>
    obtain ⟨flushed, rest, hflush, hrest⟩ := hd.flush
    refine ⟨flushed, rest, hflush, fun h => absurd hloses h, fun _ => ?_⟩
    rw [hrest, ← htext]
    exact hdue []

/-- The chunks of all tokens and the flush make up the text of the tokens exactly if no space is lost behind a newline,
and otherwise a part of it. -/
theorem pushAll_stripping (s : Stripping) (ids : List TokenId) :
    ∃ d chunks flushed rest text, Detokenizer.pushAll { decoder := s.decoder } ids = (d, .ok chunks) ∧
      chunks.length = ids.length ∧ d.flush = (flushed, .ok rest) ∧ s.decoder.decode ids = .ok text ∧
      (chunks.flatMap String.toList ++ rest.toList = text.toList ↔ ¬ s.LosesSpace ids) ∧
      (chunks.flatMap String.toList ++ rest.toList).Sublist text.toList := by
  obtain ⟨d, chunks, hpush, hlength, hfollows⟩ :=
    Detokenizer.pushAll_induction Follows.push (follows_start (s := s)) ids
  obtain ⟨flushed, rest, hflush, hall, hlacks⟩ := hfollows.flush
  refine ⟨d, chunks, flushed, rest, _, hpush, hlength, hflush, rfl, ?_⟩
  rw [List.nil_append, List.nil_append] at hall hlacks
  rw [String.toList_ofList]
  by_cases hloses : s.LosesSpace ids
  · exact ⟨iff_of_false (hlacks hloses).2 (not_not.mpr hloses), (hlacks hloses).1⟩
  · rw [hall hloses]
    exact ⟨iff_of_true rfl hloses, List.Sublist.refl _⟩

/-- A letter, a newline, an indented letter and a special token. -/
def indented : Stripping where
  special id := id == 3
  piece id := if id = 0 then "a" else if id = 1 then "\n" else if id = 2 then " b" else "<s>"

/-- With the special token in front of the newline the second letter stays indented. -/
theorem pushAll_stripping_indented :
    ¬ indented.LosesSpace [0, 3, 1, 2] ∧
      ∃ d chunks flushed rest, Detokenizer.pushAll { decoder := indented.decoder } [0, 3, 1, 2] = (d, .ok chunks) ∧
        d.flush = (flushed, .ok rest) ∧ chunks.flatMap String.toList ++ rest.toList = ['a', '\n', ' ', 'b'] := by
  have hkeeps : ¬ indented.LosesSpace [0, 3, 1, 2] := by
    rintro ⟨-, front, id, back, heq, hlast, hnone, -⟩
    -- The text ends in a newline behind three of the tokens only, and the fourth one has text.
    match front with
    | [] => cases hlast
    | [_] | [_, _] =>
      cases heq
      exact absurd hlast (by decide)
    | [_, _, _] =>
      cases heq
      exact absurd hnone (by decide)
    | _ :: _ :: _ :: _ :: _ => simp at heq
  obtain ⟨d, chunks, flushed, rest, text, hpush, -, hflush, htext, hall, -⟩ := pushAll_stripping indented [0, 3, 1, 2]
  refine ⟨hkeeps, d, chunks, flushed, rest, hpush, hflush, ?_⟩
  have hdecode : indented.decoder.decode [0, 3, 1, 2] = .ok (String.ofList ['a', '\n', ' ', 'b']) := by cbv
  rw [hdecode, Except.ok.injEq] at htext
  rw [hall.mpr hkeeps, ← htext, String.toList_ofList]

/-- A tokenizer with these surfaces, which writes spaces as marks and drops those of the first surface. -/
def indentedWords : WordTokenizer where
  words := [("a", 0), ("\n", 1), ("\u2581b", 2)]
  unknown := "a"
  added := [⟨"<s>", 3, true⟩]
  splitsAtBlanks := false
  decoding := some (.blankMark '\u2581' false)

/-- With the special token behind the newline it does not, and neither does it with the tokenizer. -/
theorem pushAll_of_special :
    ¬ (∃ d chunks flushed rest, Detokenizer.pushAll { decoder := indented.decoder } [0, 1, 3, 2] = (d, .ok chunks) ∧
        d.flush = (flushed, .ok rest) ∧
        indented.decoder.decode [0, 1, 3, 2] = .ok (String.join (chunks ++ [rest]))) ∧
      ∃ d, Detokenizer.pushAll { decoder := indentedWords.tokenizer.decoder } [0, 1, 3, 2] =
          (d, .ok ["a", "\n", "", "b"]) ∧
        d.flush.2 = .ok "" ∧ indentedWords.tokenizer.decoder.decode [0, 1, 3, 2] = .ok "a\n b" := by
  refine ⟨?_, _, rfl, rfl, rfl⟩
  rintro ⟨d, chunks, flushed, rest, hpush, hflush, hdecode⟩
  cases hpush
  cases hflush
  exact absurd hdecode (by decide)

end Stripping
end GuidedDecoding
