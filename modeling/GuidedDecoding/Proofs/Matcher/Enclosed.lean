import GuidedDecoding.Proofs.Matcher.Open
import GuidedDecoding.Proofs.Pattern.Front

/-!
# What a pattern is before it is put in parentheses

A pattern is put in parentheses as a text. If the text is a pattern by itself, the grammar of it can be made exactly
when the pattern has a meaning, does not nest too deeply in its parentheses, and does not take the closing into a
comment of its own; a stop token is accepted then only behind what the pattern matches. A text that is no pattern by
itself can pass only if what stands in front of one of its closing parentheses is one (`ofPattern_of_read?`), and there
are such texts (`ofPattern_of_halves`).
-/

namespace GuidedDecoding
namespace Pattern

variable {text : String} {t : Tree}

/-- A text that is no pattern by itself can be one in parentheses only if one stands in front of one of its closing
parentheses. -/
theorem exists_front_of_not_read {w : Tree} (h : Tree.read? text.toList = none)
    (hw : Tree.read? (anchored text) = some w) :
    ∃ front back t, text.toList = front ++ ')' :: back ∧ Tree.read? front = some t := by
  obtain ⟨front, back, t, hsplit, ht⟩ := exists_front_of_anchored hw
  rcases List.append_eq_append_iff.mp hsplit with ⟨more, hfront, hclosing⟩ | ⟨more, htext, hback⟩
  · -- The parenthesis is that of the closing, so that the text itself stands in front of it.
    obtain rfl : more = [] := by
      rcases more with _ | ⟨c, _ | ⟨d, more⟩⟩
      · rfl
      · cases hclosing
      · cases more <;> cases hclosing
    rw [List.append_nil] at hfront
    rw [hfront, h] at ht
    cases ht
  · cases more with
    | nil =>
      rw [List.append_nil] at htext
      rw [← htext, h] at ht
      cases ht
    | cons c more =>
      cases hback
      exact ⟨front, more, t, htext, ht⟩

/-- A pattern is one if it can be read with its anchors. -/
theorem exists_ofText?_iff :
    (∃ p, ofText? text = some p) ↔ ∃ w e, Tree.read? (anchored text) = some w ∧ w.expr? = some e := by
  constructor
  · rintro ⟨p, hp⟩
    obtain ⟨w, hw, hexpr⟩ := Option.bind_eq_some_iff.mp hp
    obtain ⟨e, he, -⟩ := Option.bind_eq_some_iff.mp hexpr
    exact ⟨w, e, hw, he⟩
  · rintro ⟨w, e, hw, he⟩
    refine ⟨{ text, expr := e }, Option.bind_eq_some_iff.mpr ⟨w, hw, ?_⟩⟩
    exact Option.bind_eq_some_iff.mpr ⟨e, he, rfl⟩

/-- If a text is a pattern by itself, then its parentheses hold it together unless it nests too deeply in them or takes
in the closing. -/
theorem exists_ofText?_iff_of_read? (h : Tree.read? text.toList = some t) :
    (∃ p, ofText? text = some p) ↔
      (∃ e, t.expr? = some e) ∧ t.depth + 2 ≤ depthLimit ∧ Tree.read? (text.toList ++ closing) = none := by
  rw [exists_ofText?_iff, ← read?_anchored_iff h]
  constructor
  · rintro ⟨w, e, hw, he⟩
    have hexpr : (t.expr?.map (·.andThen (.look .textEnd))) = some e := by
      rw [← expr?_enclosed, ← he, read?_anchored h hw]
    obtain ⟨e', he', -⟩ := Option.map_eq_some_iff.mp hexpr
    exact ⟨⟨e', he'⟩, w, hw⟩
  · rintro ⟨⟨e, he⟩, w, hw⟩
    refine ⟨w, e.andThen (.look .textEnd), hw, ?_⟩
    obtain rfl : w = t.enclosed := read?_anchored h hw
    rw [expr?_enclosed, he]
    rfl

end Pattern

namespace Matcher

open Pattern (Tree closing depthLimit)

variable {l : Lexicon} {table : Array Bytes} {walk : Pattern.Walk} {m : Matcher} {ids : List TokenId} {stop : TokenId}

/-- A stop token is accepted behind other tokens only where these match. -/
theorem Stands.isComplete_of_acceptsAll (h : m.Stands l table walk) (ht : l.table = .ok table) (hstop : stop ∈ l.stop)
    (hall : m.AcceptsAll (ids ++ [stop])) : (walk.run (ids.flatMap (l.contribution table))).isComplete = true := by
  induction ids generalizing m walk with
  | nil =>
    have hlt : stop.toNat < l.size := by
      have haccept := (accept_ne_rejected_iff m stop).mp hall.1
      rw [h.lexicon_eq] at haccept
      exact haccept.2.1
    exact (h.accept_stop ht hstop hlt).mp hall.1
  | cons id ids ih =>
    obtain ⟨hv, hrest⟩ := hall
    rw [List.flatMap_cons, Pattern.Walk.run_append]
    cases hanswer : (m.accept id).2 with
    | rejected => exact absurd hanswer hv
    | continues => exact ih (h.accept_of_continues ht hanswer).2.2.1 hrest
    | terminal =>
      -- Behind the end of the text nothing is accepted, not even the stop token.
      have hended := terminated_accept_of_terminal hanswer
      have hclosed (next : TokenId) (hnext : ((m.accept id).1.accept next).2 ≠ .rejected) : False := by
        have hopen := ((accept_ne_rejected_iff _ next).mp hnext).1
        rw [hended] at hopen
        cases hopen
      cases ids with
      | nil => exact (hclosed stop hrest.1).elim
      | cons next ids => exact (hclosed next hrest.1).elim

/-- The grammar of a text that is a pattern by itself can be made exactly when the pattern has a meaning, its
parentheses leave room for it, and it does not take the closing into a comment; then a stop token is accepted only
behind what the pattern matches. If the grammar of another text can be made, a pattern stands in front of one of the
closing parentheses of the text. -/
theorem ofPattern_of_read? (text : String) :
    (∀ t, Tree.read? text.toList = some t →
      ((∃ c, Constraint.ofPattern text = .ok c) ↔
        (∃ e, t.expr? = some e) ∧ t.depth + 2 ≤ depthLimit ∧ Tree.read? (text.toList ++ closing) = none) ∧
      ∀ c l m, Constraint.ofPattern text = .ok c → Matcher.start l c = .ok m →
        ∃ e table, t.expr? = some e ∧ l.table = .ok table ∧
          ∀ ids stop, stop ∈ l.stop → m.AcceptsAll (ids ++ [stop]) →
            e.Matches none (ids.flatMap (l.contribution table)) none) ∧
    (Tree.read? text.toList = none → ∀ c, Constraint.ofPattern text = .ok c →
      ∃ front back t, text.toList = front ++ ')' :: back ∧ Tree.read? front = some t) := by
  refine ⟨fun t h => ⟨?_, ?_⟩, ?_⟩
  · rw [← Pattern.exists_ofText?_iff_of_read? h]
    simp only [Constraint.ofPattern_eq_ok_iff]
    exact ⟨fun ⟨_, p, hp, _⟩ => ⟨p, hp⟩, fun ⟨p, hp⟩ => ⟨_, p, hp, rfl⟩⟩
  · intro c l m hc hm
    obtain ⟨p, hp, rfl⟩ := Constraint.ofPattern_eq_ok_iff.mp hc
    obtain ⟨e, he, -⟩ := Pattern.exists_expr?_of_ofText? h hp
    obtain ⟨table, ht, hstands⟩ := stands_of_start hm
    refine ⟨e, table, he, ht, fun ids stop hstop hall => ?_⟩
    exact (Pattern.isComplete_start_run_iff h hp he).mp (hstands.isComplete_of_acceptsAll ht hstop hall)
  · intro h c hc
    obtain ⟨p, hp, -⟩ := Constraint.ofPattern_eq_ok_iff.mp hc
    obtain ⟨w, hw, -⟩ := Option.bind_eq_some_iff.mp hp
    exact Pattern.exists_front_of_not_read h hw

/-- `ab` is a pattern by itself, and holds together; `a)|(b` is none, and passes because `a` is one. -/
theorem ofPattern_of_read?_ab :
    (∃ c, Constraint.ofPattern "ab" = .ok c) ∧
      (∃ t e, Tree.read? "ab".toList = some t ∧ t.expr? = some e ∧ e.Matches none [0x61, 0x62] none) ∧
      ∃ front back t, "a)|(b".toList = front ++ ')' :: back ∧ Tree.read? front = some t := by
  have hread : Tree.read? "ab".toList =
      some (.concatenation [.literal ⟨'a', false⟩, .literal ⟨'b', false⟩]) := by cbv
  have hexpr : ∃ e, (Tree.concatenation [.literal ⟨'a', false⟩, .literal ⟨'b', false⟩]).expr? = some e :=
    ⟨_, by cbv⟩
  have hbehind : Tree.read? ("ab".toList ++ closing) = none := by cbv
  have hm : Matcher.start pieces (.pattern LogitGate.abPattern) = .ok piecesMatcher := by cbv
  have htable : pieces.table = .ok #[[0x61], [0x62], [0x61, 0x62], [0x3C, 0x2F, 0x73, 0x3E]] := by cbv
  have hall : piecesMatcher.AcceptsAll ([2] ++ [3]) := by
    have hab : (piecesMatcher.accept 2).2 = .continues := by cbv
    have hend : ((piecesMatcher.accept 2).1.accept 3).2 = .terminal := by cbv
    simp [AcceptsAll, hab, hend]
  have hother : Tree.read? "a)|(b".toList = none := by cbv
  have hpasses : ∃ c, Constraint.ofPattern "a)|(b" = .ok c := ⟨_, by cbv⟩
  obtain ⟨hok, hstop⟩ := (ofPattern_of_read? "ab").1 _ hread
  refine ⟨hok.mpr ⟨hexpr, by decide, hbehind⟩, ?_, ?_⟩
  · obtain ⟨e, table, he, ht, hmatches⟩ := hstop _ pieces piecesMatcher (by cbv) hm
    cases ht.symm.trans htable
    exact ⟨_, e, hread, he, hmatches [2] 3 (by decide) hall⟩
  · obtain ⟨c, hc⟩ := hpasses
    exact (ofPattern_of_read? "a)|(b").2 hother c hc

/-- The parentheses join two halves that are no pattern by themselves, and a comment that is open at the end of a
pattern takes them in. -/
theorem ofPattern_of_halves :
    (Tree.read? "a)|(?:b".toList = none ∧ ∃ c, Constraint.ofPattern "a)|(?:b" = .ok c) ∧
      (∃ t e, Tree.read? "(?x)a#".toList = some t ∧ t.expr? = some e ∧ t.depth + 2 ≤ depthLimit) ∧
      Constraint.ofPattern "(?x)a#" = .error (.setup .invalidPattern) := by
  refine ⟨⟨by cbv, _, by cbv⟩, ⟨_, _, by cbv, by cbv, by decide⟩, by cbv⟩

end Matcher
end GuidedDecoding
