import GuidedDecoding.Proofs.LogitGate
import GuidedDecoding.Proofs.Pattern.Anchored

/-!
# Every cut of a text into tokens

A pattern speaks of bytes, and a matcher takes tokens. Where there is a stop token, a matcher of a pattern takes
some tokens and then the stop token exactly when the tokens have bytes and these bytes, put together, match the
whole pattern as it is read by itself (`acceptsAll_iff_matches`). Where the text is cut makes no difference,
not even inside a character, and the matcher behind it is the same but for the number of tokens.
-/

namespace GuidedDecoding
namespace Matcher

variable {l : Lexicon} {table : Array Bytes} {walk : Pattern.Walk} {m m' : Matcher} {id stop : TokenId}
  {ids : List TokenId}

/-- Each of the tokens is accepted when it is offered behind those before it. -/
def AcceptsAll (m : Matcher) : List TokenId → Prop
  | [] => True
  | id :: ids => (m.accept id).2 ≠ .rejected ∧ (m.accept id).1.AcceptsAll ids

/-- A text that has come as far as `walk` under a pattern, and has not ended. -/
structure Stands (m : Matcher) (l : Lexicon) (table : Array Bytes) (walk : Pattern.Walk) : Prop where
  lexicon_eq : m.lexicon = l
  open_text : m.terminated = false
  recognizer_eq : m.recognizer = { lexicon := l, progress := .walk table walk }

/-! ### One token -/

/-- An ordinary token has the bytes in the table that it contributes to a text. -/
theorem table_getElem? (ht : l.table = .ok table) (hlt : id.toNat < l.size) (hid : id ∉ l.stop) :
    table[id.toNat]? = some (l.contribution table id) := by
  have hbound : id.toNat < table.size := by
    rw [Lexicon.size_table ht]
    exact hlt
  have hentry : table[id.toNat]? = some table[id.toNat] := Array.getElem?_eq_getElem hbound
  rw [Lexicon.contribution_of_not_isStop (Lexicon.isStop_eq_false hid) hentry]
  exact hentry

/-- A special token contributes nothing. -/
theorem contribution_of_special (ht : l.table = .ok table) (hlt : id.toNat < l.size) (h : id ∈ l.special) :
    l.contribution table id = [] := by
  have hsurface : l.vocabulary.surface? id = some l.vocabulary.surfaces[id.toNat] :=
    Array.getElem?_eq_getElem hlt
  obtain ⟨bytes, hentry, hbytes⟩ := Lexicon.table_entry ht hsurface
  rw [Lexicon.bytesOf_special h] at hbytes
  cases hbytes
  rw [table_getElem? ht hlt (l.special_not_stop id h)] at hentry
  exact Option.some.inj hentry

/-- A stop token is accepted where the text so far matches. -/
theorem Stands.accept_stop (h : m.Stands l table walk) (ht : l.table = .ok table) (hstop : stop ∈ l.stop)
    (hlt : stop.toNat < l.size) : (m.accept stop).2 ≠ .rejected ↔ walk.isComplete = true := by
  have hbound : stop.toNat < table.size := by
    rw [Lexicon.size_table ht]
    exact hlt
  have hpermits : m.recognizer.permits stop = walk.isComplete := by
    rw [h.recognizer_eq, Recognizer.permits_walk rfl (Array.getElem?_eq_getElem hbound) rfl,
      if_pos (Lexicon.isStop_iff.mpr hstop)]
  rw [accept_ne_rejected_iff, hpermits, h.lexicon_eq]
  exact ⟨fun hall => hall.2.2, fun hcomplete => ⟨h.open_text, hlt, hcomplete⟩⟩

/-- An ordinary token may come next if its bytes are not empty and keep the walk alive. -/
theorem permits_iff (ht : l.table = .ok table) (hlt : id.toNat < l.size) (hid : id ∉ l.stop) :
    Recognizer.permits { lexicon := l, progress := .walk table walk } id = true ↔
      l.contribution table id ≠ [] ∧ (walk.run (l.contribution table id)).isAlive = true := by
  rw [Recognizer.permits_walk rfl (table_getElem? ht hlt hid) rfl,
    if_neg (fun hstop => hid (Lexicon.isStop_iff.mp hstop)), Option.isSome_iff_exists]
  constructor
  · rintro ⟨next, hnext⟩
    obtain ⟨hne, halive, -⟩ := Recognizer.extend?_eq_some_iff.mp hnext
    exact ⟨hne, halive⟩
  · rintro ⟨hne, halive⟩
    exact ⟨_, Recognizer.extend?_eq_some_iff.mpr ⟨hne, halive, rfl⟩⟩

/-- Any other token is accepted if it has bytes and they keep the walk alive. -/
theorem Stands.accept_iff (h : m.Stands l table walk) (ht : l.table = .ok table) (hlt : id.toNat < l.size)
    (hid : id ∉ l.stop) :
    (m.accept id).2 ≠ .rejected ↔
      l.contribution table id ≠ [] ∧ (walk.run (l.contribution table id)).isAlive = true := by
  rw [accept_ne_rejected_iff, h.lexicon_eq, h.recognizer_eq, permits_iff ht hlt hid]
  exact ⟨fun hall => hall.2.2, fun hgrows => ⟨h.open_text, hlt, hgrows⟩⟩

/-- Where there is a stop token, the text goes on behind any other token. -/
theorem Stands.accept (h : m.Stands l table walk) (ht : l.table = .ok table) (hstop : stop ∈ l.stop)
    (hid : id ∉ l.stop) (hv : (m.accept id).2 ≠ .rejected) :
    (m.accept id).1.Stands l table (walk.run (l.contribution table id)) := by
  have houtcome := accept_outcome m id
  generalize (m.accept id).1 = next, (m.accept id).2 = v at houtcome hv ⊢
  cases houtcome with
  | rejected => exact absurd rfl hv
  | accepted _ hlt ho _ =>
    rw [h.recognizer_eq] at ho
    rw [h.lexicon_eq] at hlt
    cases ho with
    | rejected => exact absurd rfl hv
    | stop _ hisStop => exact absurd (Lexicon.isStop_iff.mp hisStop) hid
    | free _ _ hfree => cases hfree
    | grows _ _ hwalk hb =>
      cases hwalk
      obtain rfl := Option.some.inj (hb.symm.trans (table_getElem? ht hlt hid))
      exact ⟨h.lexicon_eq, rfl, rfl⟩
    | spent _ _ _ _ _ hempty =>
      have hnone : l.stop.ids = [] := List.isEmpty_iff.mp hempty
      have hmem : stop ∈ l.stop.ids := hstop
      rw [hnone] at hmem
      cases hmem

/-! ### A row of tokens -/

/-- What comes before a match keeps the walk alive. -/
theorem Stands.acceptsAll_iff (h : m.Stands l table walk) (ht : l.table = .ok table) (hstop : stop ∈ l.stop)
    (hlt : stop.toNat < l.size) (hids : ∀ id ∈ ids, id.toNat < l.size ∧ id ∉ l.stop) :
    m.AcceptsAll (ids ++ [stop]) ↔
      (∀ id ∈ ids, l.contribution table id ≠ []) ∧
        (walk.run (ids.flatMap (l.contribution table))).isComplete = true := by
  induction ids generalizing m walk with
  | nil =>
    show (m.accept stop).2 ≠ .rejected ∧ True ↔ _
    rw [h.accept_stop ht hstop hlt]
    simp [Pattern.Walk.run]
  | cons id ids ih =>
    rw [List.forall_mem_cons] at hids
    have haccept := h.accept_iff ht hids.1.1 hids.1.2
    have hnext := h.accept ht hstop hids.1.2
    show (m.accept id).2 ≠ .rejected ∧ (m.accept id).1.AcceptsAll (ids ++ [stop]) ↔ _
    rw [List.forall_mem_cons, List.flatMap_cons, Pattern.Walk.run_append]
    constructor
    · rintro ⟨hv, hrest⟩
      obtain ⟨hbytes, hcomplete⟩ := (ih (hnext hv) hids.2).mp hrest
      exact ⟨⟨(haccept.mp hv).1, hbytes⟩, hcomplete⟩
    · rintro ⟨⟨hne, hbytes⟩, hcomplete⟩
      have hv := haccept.mpr ⟨hne, Pattern.Walk.isAlive_of_isComplete_run hcomplete⟩
      exact ⟨hv, (ih (hnext hv) hids.2).mpr ⟨hbytes, hcomplete⟩⟩

/-- Tokens that are accepted bring the text as far as their bytes bring the walk. -/
theorem Stands.acceptAll (h : m.Stands l table walk) (ht : l.table = .ok table) (hstop : stop ∈ l.stop)
    (hids : ∀ id ∈ ids, id.toNat < l.size ∧ id ∉ l.stop) (haccepts : m.AcceptsAll ids) :
    (m.acceptAll ids).Stands l table (walk.run (ids.flatMap (l.contribution table))) := by
  induction ids generalizing m walk with
  | nil => exact h
  | cons id ids ih =>
    rw [List.forall_mem_cons] at hids
    obtain ⟨hv, hrest⟩ := haccepts
    rw [List.flatMap_cons, Pattern.Walk.run_append]
    exact ih (h.accept ht hstop hids.1.2 hv) hids.2 hrest

/-! ### Equal matchers -/

/-- Matchers that differ in nothing that an answer depends on. -/
structure Alike (m m' : Matcher) : Prop where
  lexicon_eq : m.lexicon = m'.lexicon
  terminated_eq : m.terminated = m'.terminated
  recognizer_eq : m.recognizer = m'.recognizer

/-- Matchers whose texts have come to the same walk are alike. -/
theorem Stands.alike (h : m.Stands l table walk) (h' : m'.Stands l table walk) : m.Alike m' :=
  ⟨h.lexicon_eq.trans h'.lexicon_eq.symm, h.open_text.trans h'.open_text.symm,
    h.recognizer_eq.trans h'.recognizer_eq.symm⟩

/-- Matchers that are alike have one mask. -/
theorem Alike.mask (h : m.Alike m') : m.mask = m'.mask := by
  unfold Matcher.mask Matcher.fill
  rw [h.lexicon_eq, h.terminated_eq, h.recognizer_eq]

theorem Alike.accept (h : m.Alike m') (id : TokenId) :
    (m.accept id).2 = (m'.accept id).2 ∧ (m.accept id).1.Alike (m'.accept id).1 := by
  unfold Matcher.accept
  rw [h.lexicon_eq, h.terminated_eq, h.recognizer_eq]
  split
  · exact ⟨rfl, h⟩
  · rcases m'.recognizer.accept id with ⟨r, v⟩
    cases v <;> exact ⟨rfl, rfl, rfl, rfl⟩

theorem Alike.acceptAll (h : m.Alike m') (ids : List TokenId) : (m.acceptAll ids).Alike (m'.acceptAll ids) := by
  induction ids generalizing m m' with
  | nil => exact h
  | cons id ids ih => exact ih (h.accept id).2

/-! ### Whole texts -/

theorem exists_table_of_bind {p : Pattern} {r : Recognizer} (hr : Constraint.bind (.pattern p) l = .ok r) :
    ∃ table, l.table = .ok table ∧ r = { lexicon := l, progress := .walk table p.start } := by
  unfold Constraint.bind at hr
  cases ht : l.table with
  | error e =>
    rw [ht] at hr
    cases hr
  | ok table =>
    rw [ht] at hr
    cases hr
    exact ⟨table, rfl, rfl⟩

/-- A new matcher of a pattern stands at its start. -/
theorem stands_of_start {p : Pattern} (hm : Matcher.start l (.pattern p) = .ok m) :
    ∃ table, l.table = .ok table ∧ m.Stands l table p.start := by
  obtain ⟨-, r, hr, rfl⟩ := start_eq_ok hm
  obtain ⟨table, ht, rfl⟩ := exists_table_of_bind hr
  exact ⟨table, ht, rfl, rfl, rfl⟩

/-- A matcher that has just been started stands at the begin of its pattern. -/
theorem stands_start {p : Pattern} (hm : Matcher.start l (.pattern p) = .ok m) (ht : l.table = .ok table) :
    m.Stands l table p.start := by
  obtain ⟨table', ht', hstands⟩ := stands_of_start hm
  cases ht.symm.trans ht'
  exact hstands

/-- A matcher takes some tokens and then a stop token exactly when none of them is special, all have bytes, and
these bytes match the whole pattern as it is read by itself. Behind tokens of the same bytes, whatever is offered
next, matchers have the same mask and give the same answers. -/
theorem acceptsAll_iff_matches {text : String} {t : Pattern.Tree} {c : Constraint}
    (hread : Pattern.Tree.read? text.toList = some t) (hc : Constraint.ofPattern text = .ok c)
    (hm : Matcher.start l c = .ok m) (hstop : stop ∈ l.stop) :
    ∃ e table, t.expr? = some e ∧ l.table = .ok table ∧
      (∀ ids : List TokenId, (∀ id ∈ ids, id.toNat < l.size ∧ id ∉ l.stop) →
        (m.AcceptsAll (ids ++ [stop]) ↔
          (∀ id ∈ ids, id ∉ l.special) ∧ (∀ id ∈ ids, l.contribution table id ≠ []) ∧
            e.Matches none (ids.flatMap (l.contribution table)) none)) ∧
      ∀ ids ids' : List TokenId, (∀ id ∈ ids ++ ids', id.toNat < l.size ∧ id ∉ l.stop) →
        m.AcceptsAll ids → m.AcceptsAll ids' →
        ids.flatMap (l.contribution table) = ids'.flatMap (l.contribution table) →
        ∀ later : List TokenId,
          ((m.acceptAll ids).acceptAll later).mask = ((m.acceptAll ids').acceptAll later).mask ∧
          ∀ id, (((m.acceptAll ids).acceptAll later).accept id).2 =
            (((m.acceptAll ids').acceptAll later).accept id).2 := by
  obtain ⟨p, hp, rfl⟩ := Constraint.ofPattern_eq_ok_iff.mp hc
  obtain ⟨e, he, -⟩ := Pattern.exists_expr?_of_ofText? hread hp
  obtain ⟨table, ht, hstands⟩ := stands_of_start hm
  have hlt : stop.toNat < l.size := (start_eq_ok hm).1 stop hstop
  refine ⟨e, table, he, ht, ?_, ?_⟩
  · intro ids hids
    rw [hstands.acceptsAll_iff ht hstop hlt hids, Pattern.isComplete_start_run_iff hread hp he]
    constructor
    · rintro ⟨hbytes, hmatches⟩
      refine ⟨?_, hbytes, hmatches⟩
      intro id hid hspecial
      exact hbytes id hid (contribution_of_special ht (hids id hid).1 hspecial)
    · rintro ⟨-, hbytes, hmatches⟩
      exact ⟨hbytes, hmatches⟩
  · intro ids ids' hids haccepts haccepts' hsame later
    rw [List.forall_mem_append] at hids
    have h := hstands.acceptAll ht hstop hids.1 haccepts
    have h' := hstands.acceptAll ht hstop hids.2 haccepts'
    rw [← hsame] at h'
    have halike := (h.alike h').acceptAll later
    exact ⟨halike.mask, fun id => (halike.accept id).1⟩

def pieces : Lexicon := Lexicon.ofSurfaces ["a", "b", "ab", "</s>"] [3]

def piecesMatcher : Matcher where
  lexicon := pieces
  constraint := .pattern LogitGate.abPattern
  recognizer :=
    { lexicon := pieces
      progress := .walk #[[0x61], [0x62], [0x61, 0x62], [0x3C, 0x2F, 0x73, 0x3E]] LogitGate.abPattern.start }

/-- The pattern `ab` matches the bytes of `a` and `b`, because they are taken before the end, and the matcher
behind them has the same mask as behind `ab`. -/
theorem acceptsAll_iff_matches_ab :
    Constraint.ofPattern "ab" = .ok (.pattern LogitGate.abPattern) ∧
      Matcher.start pieces (.pattern LogitGate.abPattern) = .ok piecesMatcher ∧ 3 ∈ pieces.stop ∧
      (∃ t e, Pattern.Tree.read? "ab".toList = some t ∧ t.expr? = some e ∧
        e.Matches none [0x61, 0x62] none) ∧
      (piecesMatcher.acceptAll [0, 1]).mask = (piecesMatcher.acceptAll [2]).mask := by
  have hread : Pattern.Tree.read? "ab".toList =
      some (.concatenation [.literal ⟨'a', false⟩, .literal ⟨'b', false⟩]) := by cbv
  have hc : Constraint.ofPattern "ab" = .ok (.pattern LogitGate.abPattern) := by cbv
  have hm : Matcher.start pieces (.pattern LogitGate.abPattern) = .ok piecesMatcher := by cbv
  have hstop : (3 : TokenId) ∈ pieces.stop := by decide
  have htable : pieces.table = .ok #[[0x61], [0x62], [0x61, 0x62], [0x3C, 0x2F, 0x73, 0x3E]] := by cbv
  -- Both cuts have the same bytes, so the general theorem gives both halves.
  obtain ⟨e, table, he, ht, hmatches, hsame⟩ := acceptsAll_iff_matches hread hc hm hstop
  cases ht.symm.trans htable
  have ha : (piecesMatcher.accept 0).2 = .continues := by cbv
  have hb : ((piecesMatcher.accept 0).1.accept 1).2 = .continues := by cbv
  have hend : (((piecesMatcher.accept 0).1.accept 1).1.accept 3).2 = .terminal := by cbv
  have hab : (piecesMatcher.accept 2).2 = .continues := by cbv
  have haccepts : piecesMatcher.AcceptsAll ([0, 1] ++ [3]) := by simp [AcceptsAll, ha, hb, hend]
  -- the three tokens are in the lexicon, and none of them is its stop token
  have hordinary : ∀ id ∈ ([0, 1, 2] : List TokenId), id.toNat < pieces.size ∧ id ∉ pieces.stop := by
    intro id hid
    simp only [List.mem_cons, List.not_mem_nil, or_false] at hid
    rcases hid with rfl | rfl | rfl <;> decide
  refine ⟨hc, hm, hstop, ⟨_, e, hread, he, ?_⟩, ?_⟩
  · exact ((hmatches [0, 1] fun id hid => hordinary id (List.mem_append_left [2] hid)).mp haccepts).2.2
  · have hcut : piecesMatcher.AcceptsAll [0, 1] := by simp [AcceptsAll, ha, hb]
    have hwhole : piecesMatcher.AcceptsAll [2] := by simp [AcceptsAll, hab]
    exact (hsame [0, 1] [2] hordinary hcut hwhole rfl []).1

end Matcher
end GuidedDecoding
