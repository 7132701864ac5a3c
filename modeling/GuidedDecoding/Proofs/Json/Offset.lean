import GuidedDecoding.Proofs.Json.Repair
import GuidedDecoding.Proofs.Text.Slice

/-!
# Strings and literals by their offsets

The bytes of a text can be scanned without a look at its characters: behind a backslash one byte is passed over
(`stringEnd?`), in a numeric escape five (`bodyEnd`), and a literal goes on up to a byte that ends it
(`literalEnd`). Such a step may end inside a character, or behind the end of the text.

In a string these scanners stand where the one over characters does, or at the backslash of the escape that it is in
(`StringAt`, `BodyAt`). When they come out inside a character they go on byte by byte to its end, since none of its
bytes stops them. So they end between two characters (`StringAt.cases`, `BodyAt.finish`, `literalEnd_append`), and
where the other scanner does (`Repair.foldl_valueText`).
-/

namespace GuidedDecoding.Json

open Utf8 (bytesOf byteLength charOf)

/-! ### The scanners -/

/-- The offset behind the quote that ends a string, from an offset in its body. -/
def stringEnd? (bs : Bytes) (i : Nat) : Option Nat :=
  match _h : bs[i]? with
  | none => none
  | some b =>
    if charOf b = '\\' then stringEnd? bs (i + 2)
    else if charOf b = '"' then some (i + 1)
    else stringEnd? bs (i + 1)
termination_by bs.length - i
decreasing_by all_goals
  have := (List.getElem?_eq_some_iff.mp _h).1
  omega

def escapeLength (bs : Bytes) (i : Nat) : Nat := if bs[i + 1]?.map charOf = some 'u' then 6 else 2

theorem two_le_escapeLength (bs : Bytes) (i : Nat) : 2 ≤ escapeLength bs i := by
  unfold escapeLength
  split <;> decide

/-- The end of what can be kept of the body of an open string, from an offset in it: all but an escape that is cut
off. -/
def bodyEnd (bs : Bytes) (i : Nat) : Nat :=
  match _h : bs[i]? with
  | none => min i bs.length
  | some b =>
    if charOf b = '\\' then
      if bs.length < i + escapeLength bs i then min i bs.length else bodyEnd bs (i + escapeLength bs i)
    else bodyEnd bs (i + 1)
termination_by bs.length - i
decreasing_by all_goals
  have := (List.getElem?_eq_some_iff.mp _h).1
  have := two_le_escapeLength bs i
  omega

/-- The offset of the byte that ends a literal, or the length of the text. -/
def literalEnd (bs : Bytes) (i : Nat) : Nat :=
  match (bs.drop i).findIdx? fun b => Repair.endsLiteral (charOf b) with
  | some n => i + n
  | none => bs.length

theorem stringEnd?_of_none {bs : Bytes} {i : Nat} (h : bs[i]? = none) : stringEnd? bs i = none := by
  rw [stringEnd?]
  split
  · rfl
  · simp_all

/-- A backslash takes the byte behind it along, and a quote ends the string. -/
theorem stringEnd?_of_some {bs : Bytes} {i : Nat} {b : UInt8} (h : bs[i]? = some b) :
    stringEnd? bs i =
      if charOf b = '\\' then stringEnd? bs (i + 2) else if charOf b = '"' then some (i + 1)
      else stringEnd? bs (i + 1) := by
  rw [stringEnd?]
  split
  · simp_all
  · simp_all

theorem bodyEnd_of_none {bs : Bytes} {i : Nat} (h : bs[i]? = none) : bodyEnd bs i = min i bs.length := by
  rw [bodyEnd]
  split
  · rfl
  · simp_all

/-- An escape counts as a whole or, where it is cut off, not at all. -/
theorem bodyEnd_of_some {bs : Bytes} {i : Nat} {b : UInt8} (h : bs[i]? = some b) :
    bodyEnd bs i =
      if charOf b = '\\' then
        if bs.length < i + escapeLength bs i then min i bs.length else bodyEnd bs (i + escapeLength bs i)
      else bodyEnd bs (i + 1) := by
  rw [bodyEnd]
  split
  · simp_all
  · simp_all

theorem lt_of_stringEnd? {bs : Bytes} {i e : Nat} (h : stringEnd? bs i = some e) : i < e := by
  induction i using stringEnd?.induct bs with
  | case1 i hi =>
    rw [stringEnd?_of_none hi] at h
    cases h
  | case2 i b hi hb ih =>
    rw [stringEnd?_of_some hi, if_pos hb] at h
    have := ih h
    omega
  | case3 i b hi hb hquote =>
    rw [stringEnd?_of_some hi, if_neg hb, if_pos hquote] at h
    cases h
    exact Nat.lt_succ_self i
  | case4 i b hi hb hquote ih =>
    rw [stringEnd?_of_some hi, if_neg hb, if_neg hquote] at h
    have := ih h
    omega

/-! ### Strings -/

section Strings

variable {cs front rest : List Char} {c : Char}

/-- No byte outside the ASCII range stops the scanner of strings. -/
theorem stringEnd?_succ {bs : Bytes} {i : Nat} {b : UInt8} (h : bs[i]? = some b) (hb : 0x80 ≤ (charOf b).toNat) :
    stringEnd? bs i = stringEnd? bs (i + 1) := by
  have hslash : charOf b ≠ '\\' := Utf8.ne_of_high hb (by decide)
  have hquote : charOf b ≠ '"' := Utf8.ne_of_high hb (by decide)
  rw [stringEnd?_of_some h, if_neg hslash, if_neg hquote]

/-- The scanner of strings stands behind `front`, or at the backslash right before. -/
inductive StringAt (cs front : List Char) : Bool → Nat → Prop
  | plain : StringAt cs front false (byteLength front)
  | escaped {i : Nat} {b : UInt8} :
      (bytesOf cs)[i]? = some b → charOf b = '\\' → i + 1 = byteLength front → StringAt cs front true i

theorem StringAt.next {escaped : Bool} {i : Nat} (h : StringAt cs front escaped i) (hcs : cs = front ++ c :: rest)
    (hc : ¬(c = '"' ∧ escaped = false)) :
    ∃ i', StringAt cs (front ++ [c]) (!escaped && c = '\\') i' ∧
      stringEnd? (bytesOf cs) i = stringEnd? (bytesOf cs) i' := by
  have hbehind {k : Nat} := Utf8.eq_behind (k := k) (f := stringEnd? (bytesOf cs)) (fun _ _ => stringEnd?_succ) hcs
  cases h with
  | plain =>
    obtain ⟨b, hget, hb⟩ := Utf8.exists_getElem? front c rest
    rw [← hcs] at hget
    by_cases hslash : c = '\\'
    · refine ⟨byteLength front, ?_, rfl⟩
      rw [hslash]
      exact .escaped hget ((hb.eq_iff (by decide)).mpr hslash) (by rw [Utf8.byteLength_concat]; rfl)
    · refine ⟨byteLength (front ++ [c]), ?_, ?_⟩
      · simpa [hslash] using StringAt.plain
      · have hquote : charOf b ≠ '"' := fun h => hc ⟨(hb.eq_iff (by decide)).mp h, rfl⟩
        rw [stringEnd?_of_some hget, if_neg fun h => hslash ((hb.eq_iff (by decide)).mp h), if_neg hquote]
        exact hbehind Nat.one_pos c.utf8Size_pos
  | @escaped i b hget hb hi =>
    -- The byte that is passed over is the first one of `c`.
    refine ⟨byteLength (front ++ [c]), .plain, ?_⟩
    rw [stringEnd?_of_some hget, if_pos hb, show i + 2 = byteLength front + 1 by omega]
    exact hbehind Nat.one_pos c.utf8Size_pos

theorem StringAt.quote {i : Nat} (h : StringAt cs front false i) (hcs : cs = front ++ '"' :: rest) :
    stringEnd? (bytesOf cs) i = some (byteLength (front ++ ['"'])) := by
  cases h with
  | plain =>
    obtain ⟨b, hget, hb⟩ := Utf8.exists_getElem? front '"' rest
    rw [← hcs] at hget
    have hquote : charOf b = '"' := (hb.eq_iff (by decide)).mpr rfl
    rw [stringEnd?_of_some hget, hquote, Utf8.byteLength_concat]
    rfl

/-- A string that is still open at the end of the text does not end. -/
theorem StringAt.finish {escaped : Bool} {i : Nat} (h : StringAt cs cs escaped i) :
    stringEnd? (bytesOf cs) i = none := by
  have hend {j : Nat} (hj : byteLength cs ≤ j) : stringEnd? (bytesOf cs) j = none := by
    apply stringEnd?_of_none
    rwa [List.getElem?_eq_none_iff, Utf8.length_bytesOf]
  cases h with
  | plain => exact hend le_rfl
  | escaped hget hb hi =>
    rw [stringEnd?_of_some hget, if_pos hb]
    exact hend (by omega)

/-- Whether a backslash stands right behind a part of a string, unless the string has ended before. -/
def escapedAfter? : Bool → List Char → Option Bool
  | escaped, [] => some escaped
  | escaped, c :: cs => if c = '"' ∧ escaped = false then none else escapedAfter? (!escaped && c = '\\') cs

/-- The scanner of strings ends behind the first quote that no backslash precedes, if there is one. -/
theorem StringAt.cases {escaped : Bool} {i : Nat} (h : StringAt cs front escaped i) (hcs : cs = front ++ rest) :
    (∃ escaped', escapedAfter? escaped rest = some escaped' ∧ stringEnd? (bytesOf cs) i = none) ∨
      ∃ inside back, rest = inside ++ '"' :: back ∧ escapedAfter? escaped inside = some false ∧
        stringEnd? (bytesOf cs) i = some (byteLength (front ++ inside ++ ['"'])) := by
  induction rest generalizing front escaped i with
  | nil =>
    rw [List.append_nil] at hcs
    subst hcs
    exact Or.inl ⟨escaped, rfl, h.finish⟩
  | cons c rest ih =>
    by_cases hc : c = '"' ∧ escaped = false
    · obtain ⟨rfl, rfl⟩ := hc
      exact Or.inr ⟨[], rest, rfl, rfl, by simpa using h.quote hcs⟩
    · obtain ⟨i', hat, hi'⟩ := h.next hcs hc
      rw [hi']
      rcases ih hat (by simp [hcs]) with ⟨escaped', hpass, hnone⟩ | ⟨inside, back, rfl, hpass, hsome⟩
      · refine Or.inl ⟨escaped', ?_, hnone⟩
        rw [escapedAfter?, if_neg hc, hpass]
      · refine Or.inr ⟨c :: inside, back, rfl, ?_, ?_⟩
        · rw [escapedAfter?, if_neg hc, hpass]
        · simpa using hsome

/-! ### Open strings -/

/-- A byte that belongs to no character of the ASCII range is passed. -/
theorem bodyEnd_succ {bs : Bytes} {i : Nat} {b : UInt8} (h : bs[i]? = some b) (hb : 0x80 ≤ (charOf b).toNat) :
    bodyEnd bs i = bodyEnd bs (i + 1) := by
  have hslash : charOf b ≠ '\\' := Utf8.ne_of_high hb (by decide)
  rw [bodyEnd_of_some h, if_neg hslash]

/-- The scanner of open strings stands at the end of what is kept of `front`: at its end, or at the backslash of the
escape that it ends in. -/
inductive BodyAt (cs front : List Char) : Repair.BodyPhase → List Char → Nat → Prop
  | whole : BodyAt cs front .whole front.reverse (byteLength front)
  | backslash {kept : List Char} {i : Nat} {b : UInt8} :
      (bytesOf cs)[i]? = some b → charOf b = '\\' → kept.reverse <+: front → byteLength kept.reverse = i →
      i + 1 = byteLength front → BodyAt cs front .backslash kept i
  | numeric {kept : List Char} {i owed : Nat} {b : UInt8} :
      (bytesOf cs)[i]? = some b → charOf b = '\\' → kept.reverse <+: front → byteLength kept.reverse = i →
      escapeLength (bytesOf cs) i = 6 → 0 < owed → i + 6 = byteLength front + owed →
      BodyAt cs front (.numeric owed) kept i

theorem BodyAt.next {phase : Repair.BodyPhase} {kept : List Char} {i : Nat} (h : BodyAt cs front phase kept i)
    (hcs : cs = front ++ c :: rest) :
    ∃ i', BodyAt cs (front ++ [c]) (phase.feed c) (if phase.feed c = .whole then c :: front.reverse else kept) i' ∧
      bodyEnd (bytesOf cs) i = bodyEnd (bytesOf cs) i' := by
  have hbehind {k : Nat} := Utf8.eq_behind (k := k) (f := bodyEnd (bytesOf cs)) (fun _ _ => bodyEnd_succ) hcs
  have hwhole : BodyAt cs (front ++ [c]) .whole (c :: front.reverse) (byteLength (front ++ [c])) := by
    simpa using (BodyAt.whole : BodyAt cs (front ++ [c]) .whole _ _)
  have hlength : byteLength front + c.utf8Size ≤ (bytesOf cs).length := by
    rw [Utf8.length_bytesOf, hcs, Utf8.byteLength_append]
    simp only [byteLength]
    omega
  obtain ⟨b, hget, hb⟩ := Utf8.exists_getElem? front c rest
  rw [← hcs] at hget
  -- The offset moves on with `c`, except where an escape is open: there it stays at the backslash.
  cases h with
  | whole =>
    by_cases hslash : c = '\\'
    · refine ⟨byteLength front, ?_, rfl⟩
      have hphase : Repair.BodyPhase.whole.feed c = .backslash := if_pos hslash
      rw [hphase, if_neg (by simp)]
      refine .backslash hget ((hb.eq_iff (by decide)).mpr hslash) ?_ (by rw [List.reverse_reverse]) ?_
      · rw [List.reverse_reverse]
        exact List.prefix_append ..
      · rw [Utf8.byteLength_concat, hslash]
        rfl
    · refine ⟨byteLength (front ++ [c]), ?_, ?_⟩
      · have hphase : Repair.BodyPhase.whole.feed c = .whole := if_neg hslash
        rw [hphase, if_pos rfl]
        exact hwhole
      · rw [bodyEnd_of_some hget, if_neg fun h => hslash ((hb.eq_iff (by decide)).mp h)]
        exact hbehind Nat.one_pos c.utf8Size_pos
  | @backslash kept i slash hslash hslash' hfront hkept hi =>
    have hfirst : (bytesOf cs)[i + 1]?.map charOf = some 'u' ↔ c = 'u' := by
      rw [hi, hget, Option.map_some, Option.some.injEq]
      exact hb.eq_iff (by decide)
    by_cases hu : c = 'u'
    · have hphase : Repair.BodyPhase.backslash.feed c = .numeric 4 := if_pos hu
      refine ⟨i, ?_, rfl⟩
      rw [hphase, if_neg (by simp)]
      refine .numeric hslash hslash' (hfront.trans (List.prefix_append ..)) hkept ?_ (by decide) ?_
      · rw [escapeLength, if_pos (hfirst.mpr hu)]
      · rw [Utf8.byteLength_concat, hu, ← hi]
        rfl
    · have hphase : Repair.BodyPhase.backslash.feed c = .whole := if_neg hu
      have hlen : escapeLength (bytesOf cs) i = 2 := by rw [escapeLength, if_neg (mt hfirst.mp hu)]
      refine ⟨byteLength (front ++ [c]), ?_, ?_⟩
      · rw [hphase, if_pos rfl]
        exact hwhole
      · have hpos := c.utf8Size_pos
        rw [bodyEnd_of_some hslash, if_pos hslash', hlen, if_neg (by omega), show i + 2 = byteLength front + 1 by omega]
        exact hbehind Nat.one_pos hpos
  | @numeric kept i owed slash hslash hslash' hfront hkept hlen howed hi =>
    by_cases hmore : c.utf8Size < owed
    · have hphase : (Repair.BodyPhase.numeric owed).feed c = .numeric (owed - c.utf8Size) := if_pos hmore
      refine ⟨i, ?_, rfl⟩
      rw [hphase, if_neg (by simp)]
      refine .numeric hslash hslash' (hfront.trans (List.prefix_append ..)) hkept hlen (by omega) ?_
      rw [Utf8.byteLength_concat]
      omega
    · -- The sixth byte of the escape is one of `c`, not always its last one.
      have hphase : (Repair.BodyPhase.numeric owed).feed c = .whole := if_neg hmore
      refine ⟨byteLength (front ++ [c]), ?_, ?_⟩
      · rw [hphase, if_pos rfl]
        exact hwhole
      · rw [bodyEnd_of_some hslash, if_pos hslash', hlen, if_neg (by omega), hi]
        exact hbehind howed (by omega)

/-- What is kept of an open string ends where the scanner stops. -/
theorem BodyAt.finish {phase : Repair.BodyPhase} {kept : List Char} {i : Nat} (h : BodyAt cs cs phase kept i) :
    kept.reverse <+: cs ∧ bodyEnd (bytesOf cs) i = byteLength kept.reverse := by
  cases h with
  | whole =>
    have hnone : (bytesOf cs)[byteLength cs]? = none := by
      rw [List.getElem?_eq_none_iff, Utf8.length_bytesOf]
    rw [List.reverse_reverse, bodyEnd_of_none hnone, Utf8.length_bytesOf]
    exact ⟨List.prefix_rfl, Nat.min_self _⟩
  | backslash hget hb hfront hkept hi =>
    have hlt := (List.getElem?_eq_some_iff.mp hget).1
    have hlen := two_le_escapeLength (bytesOf cs) i
    rw [bodyEnd_of_some hget, if_pos hb, if_pos (by rw [Utf8.length_bytesOf]; omega), Nat.min_eq_left hlt.le, hkept]
    exact ⟨hfront, rfl⟩
  | numeric hget hb hfront hkept hlen howed hi =>
    have hlt := (List.getElem?_eq_some_iff.mp hget).1
    rw [bodyEnd_of_some hget, if_pos hb, hlen, if_pos (by rw [Utf8.length_bytesOf]; omega), Nat.min_eq_left hlt.le,
      hkept]
    exact ⟨hfront, rfl⟩

/-! ### What the scanner over characters makes of a string -/

namespace Repair

def past (r : Repair) (part : List Char) (stance : Stance) : Repair :=
  { r with seen := part.reverse ++ r.seen, stance := stance }

variable {r : Repair} {part : List Char} {escaped escaped' : Bool}

@[simp] theorem past_nil (r : Repair) : r.past [] r.stance = r := rfl

theorem past_singleton (r : Repair) (c : Char) (stance : Stance) :
    r.past [c] stance = { r with seen := c :: r.seen, stance := stance } := rfl

@[simp] theorem past_past (r : Repair) (a b : List Char) (stance stance' : Stance) :
    (r.past a stance).past b stance' = r.past (a ++ b) stance' := by
  simp [past]

/-- A part of a key that does not end it. -/
theorem foldl_keyText (hpass : escapedAfter? escaped part = some escaped') (hr : r.stance = .keyText escaped) :
    part.foldl feed r = r.past part (.keyText escaped') := by
  induction part generalizing r escaped with
  | nil =>
    cases hpass
    rw [← hr, past_nil]
    rfl
  | cons c part ih =>
    unfold escapedAfter? at hpass
    split at hpass
    · cases hpass
    · next hc =>
      have hfeed : r.feed c = r.past [c] (.keyText (!escaped && c = '\\')) := feed_keyText hr hc
      rw [List.foldl_cons, hfeed, ih hpass rfl, past_past, List.singleton_append]

/-- A part of a string value that does not end it, and where the scanner over bytes stands behind it. -/
theorem foldl_valueText {phase : BodyPhase} {kept : List Char} {i : Nat}
    (hpass : escapedAfter? escaped part = some escaped') (hr : r.stance = .valueText escaped phase kept)
    (hseen : r.seen = front.reverse) (hcs : cs = front ++ (part ++ rest)) (h : BodyAt cs front phase kept i) :
    ∃ phase' kept' i',
      part.foldl feed r = r.past part (.valueText escaped' phase' kept') ∧
      BodyAt cs (front ++ part) phase' kept' i' ∧ bodyEnd (bytesOf cs) i = bodyEnd (bytesOf cs) i' := by
  -- one character at a time, with the place in the bytes moved along by `BodyAt.next`
  induction part generalizing r escaped phase kept front i with
  | nil =>
    cases hpass
    refine ⟨phase, kept, i, ?_, by simpa using h, rfl⟩
    rw [← hr, past_nil]
    rfl
  | cons c part ih =>
    unfold escapedAfter? at hpass
    split at hpass
    · cases hpass
    · next hc =>
      obtain ⟨i', hat, hi'⟩ := h.next hcs
      rw [← hseen] at hat
      have hfeed : r.feed c = r.past [c] (.valueText (!escaped && c = '\\') (phase.feed c)
          (if phase.feed c = .whole then c :: r.seen else kept)) := feed_valueText hr hc
      have hseen' : (r.feed c).seen = (front ++ [c]).reverse := by simp [hfeed, past, hseen]
      obtain ⟨phase', kept', i'', hfold, hat', hi''⟩ :=
        ih hpass (congrArg Repair.stance hfeed) hseen' (by simp [hcs]) hat
      refine ⟨phase', kept', i'', ?_, by simpa using hat', hi'.trans hi''⟩
      rw [List.foldl_cons, hfold, hfeed, past_past, List.singleton_append]

end Repair

/-! ### Literals -/

theorem Repair.foldl_literal {r : Repair} {part chars : List Char} (hpart : ∀ c ∈ part, endsLiteral c = false)
    (hr : r.stance = .literal chars) :
    part.foldl feed r = r.past part (.literal (part.reverse ++ chars)) := by
  induction part generalizing r chars with
  | nil =>
    show r = r.past [] (.literal chars)
    rw [← hr, past_nil]
  | cons c part ih =>
    rw [List.forall_mem_cons] at hpart
    have hfeed : r.feed c = r.past [c] (.literal (c :: chars)) := feed_literal_more hr hpart.1
    rw [List.foldl_cons, hfeed, ih hpart.2 rfl, past_past]
    simp

/-- The end of a literal that is no value. -/
theorem Repair.feed_literal_halted {r : Repair} {chars : List Char} (h : r.stance = .literal chars)
    (hc : endsLiteral c = true) (hliteral : isLiteral chars.reverse = false) :
    r.feed c = r.past [c] .halted := by
  simp [feed, past, h, hc, hliteral]

theorem Repair.toNat_of_endsLiteral {c : Char} (h : endsLiteral c = true) : c.toNat < 0x80 := by
  have hall : ∀ c ∈ [' ', '\t', '\n', '\x0C', '\r', ',', '}', ']', ':'], c.toNat < 0x80 := by simp
  exact hall c (endsLiteral_mem h)

/-- What follows an offset, up to the first character that ends literals and from there on. -/
theorem Repair.exists_word_append (cs : List Char) :
    ∃ word back, cs = word ++ back ∧ (∀ c ∈ word, endsLiteral c = false) ∧
      ∀ c ∈ back.head?, endsLiteral c = true := by
  refine ⟨cs.takeWhile (!endsLiteral ·), cs.dropWhile (!endsLiteral ·), ?_, ?_, ?_⟩
  · exact List.takeWhile_append_dropWhile.symm
  · intro c hc
    simpa using List.mem_takeWhile_imp hc
  · intro c hc
    simpa [Option.mem_def.mp hc] using List.head?_dropWhile_not (!endsLiteral ·) cs

/-- A literal ends where the characters do that end none. -/
theorem literalEnd_append {front word back : List Char} (hword : ∀ c ∈ word, Repair.endsLiteral c = false)
    (hback : ∀ c ∈ back.head?, Repair.endsLiteral c = true) :
    literalEnd (bytesOf (front ++ (word ++ back))) (byteLength front) = byteLength (front ++ word) := by
  have hdrop : (bytesOf (front ++ (word ++ back))).drop (byteLength front) = bytesOf word ++ bytesOf back := by
    rw [Utf8.bytesOf_append, Utf8.bytesOf_append, ← Utf8.length_bytesOf, List.drop_left]
  -- the bytes of the word end no literal: they are those of its characters, or beyond the ASCII range
  have hnone : (bytesOf word).findIdx? (fun b => Repair.endsLiteral (charOf b)) = none := by
    rw [List.findIdx?_eq_none_iff]
    intro b hb
    obtain ⟨c, hc, hb⟩ := List.mem_flatMap.mp hb
    rcases Utf8.charOf_of_mem hb with heq | hhigh
    · rw [heq]
      exact hword c hc
    · by_contra hends
      rw [Bool.not_eq_false] at hends
      exact absurd (Repair.toNat_of_endsLiteral hends) (not_lt.mpr hhigh)
  unfold literalEnd
  rw [hdrop, List.findIdx?_append, hnone, Option.none_or, Utf8.length_bytesOf]
  cases back with
  | nil =>
    rw [List.append_nil]
    exact Utf8.length_bytesOf _
  | cons c back =>
    have hc := hback c rfl
    obtain ⟨b, hget, hb⟩ := Utf8.exists_getElem? [] c back
    have hfirst : Repair.endsLiteral (charOf b) = true := by
      rwa [(hb.eq_iff (Repair.toNat_of_endsLiteral hc)).mpr rfl]
    obtain ⟨bs, hbs⟩ : ∃ bs, bytesOf (c :: back) = b :: bs :=
      List.head?_eq_some_iff.mp (by rwa [List.head?_eq_getElem?])
    rw [hbs, List.findIdx?_cons, hfirst, Utf8.byteLength_append]
    simp

end Strings

end GuidedDecoding.Json
