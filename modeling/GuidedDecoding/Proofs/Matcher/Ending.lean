import GuidedDecoding.Proofs.Matcher.History
import GuidedDecoding.Proofs.Matcher.Open

/-!
# Where a stop token may end the text

A matcher that is open stands behind the tokens it has taken since it was started or reset (`Behind`), and every
reachable one stands behind some (`exists_behind`). A stop token may end the text where these tokens are complete:
under a pattern where their bytes match, without a grammar anywhere.

A pattern asks first whether a token is a stop token. Without a grammar the surface is asked first, and a stop token
whose slot is empty is not permitted anywhere (`stop_of_empty_slot`). Otherwise the two agree
(`mem_mask_stop_iff`).
-/

namespace GuidedDecoding
namespace Matcher

variable {l : Lexicon} {c : Constraint} {p : Pattern} {table : Array Bytes} {m : Matcher} {q : Call} {id stop : TokenId}
  {ids : List TokenId}

/-- The matchers behind the tokens that they have taken since they were started or reset. -/
inductive Behind (l : Lexicon) (c : Constraint) : List TokenId → Matcher → Prop
  | start {m : Matcher} (hm : Matcher.start l c = .ok m) : Behind l c [] m
  | take {ids : List TokenId} {m : Matcher} {id : TokenId} (h : Behind l c ids m) (hv : (m.accept id).2 ≠ .rejected) :
      Behind l c (ids ++ [id]) (m.accept id).1
  | reset {ids : List TokenId} {m start : Matcher} (h : Behind l c ids m) (hreset : m.reset = .ok start) :
      Behind l c [] start
  | idle {ids : List TokenId} {m : Matcher} {q : Call} (h : Behind l c ids m) (hq : m.Idle q) :
      Behind l c ids (m.call q).1

/-- The text of the tokens is complete: nothing is asked of it, or its bytes match the pattern. -/
def Complete (l : Lexicon) (c : Constraint) (ids : List TokenId) : Prop :=
  match c with
  | .free => True
  | .pattern p => ∃ table, l.table = .ok table ∧ p.expr.Matches none (ids.flatMap (l.contribution table)) none

/-- The slot of the token is empty, and without a grammar only surfaces are asked for. -/
def Blocked (l : Lexicon) (c : Constraint) (id : TokenId) : Prop := c = .free ∧ l.vocabulary.surface? id = some ""

/-! ### What a matcher stands behind -/

/-- A matcher behind some tokens can be reached. -/
theorem Behind.reachable (h : Behind l c ids m) : Reachable l c m := by
  induction h with
  | start hm => exact .start hm
  | take _ _ ih => exact .call (.accept _) ih
  | reset _ hreset ih => exact .start (ih.bound.start_of_reset hreset)
  | idle _ _ ih => exact .call _ ih

/-- Every matcher that is reachable stands behind some tokens. -/
theorem exists_behind (h : Reachable l c m) : ∃ ids, Behind l c ids m := by
  induction h with
  | start hm => exact ⟨[], .start hm⟩
  | @call m q _ ih =>
    obtain ⟨ids, hbehind⟩ := ih
    cases q with
    | accept id =>
      by_cases hv : (m.accept id).2 = .rejected
      · exact ⟨ids, hbehind.idle (q := .accept id) hv⟩
      · exact ⟨ids ++ [id], hbehind.take hv⟩
    | reset =>
      obtain ⟨start, hstart, hreset⟩ := hbehind.reachable.bound.exists_reset
      rw [hbehind.reachable.bound.call_reset hstart]
      exact ⟨[], hbehind.reset hreset⟩
    | mask => exact ⟨ids, hbehind.idle (q := .mask) trivial⟩
    | fill buffer => exact ⟨ids, hbehind.idle (q := .fill buffer) trivial⟩

/-- Where a token leaves the text open it goes on, and it was open before. -/
theorem continues_of_open (hv : (m.accept id).2 ≠ .rejected) (hopen : (m.accept id).1.terminated = false) :
    (m.accept id).2 = .continues ∧ m.terminated = false := by
  refine ⟨?_, ((accept_ne_rejected_iff m id).mp hv).1⟩
  cases hanswer : (m.accept id).2 with
  | rejected => exact absurd hanswer hv
  | terminal =>
    rw [terminated_accept_of_terminal hanswer] at hopen
    cases hopen
  | continues => rfl

/-- Under a pattern an open matcher has come as far as the bytes of the tokens it stands behind. -/
theorem Behind.stands (h : Behind l (.pattern p) ids m) (hopen : m.terminated = false) (ht : l.table = .ok table) :
    m.Stands l table (p.start.run (ids.flatMap (l.contribution table))) := by
  induction h with
  | start hm => exact stands_start hm ht
  | take _ hv ih =>
    obtain ⟨hcontinues, hbefore⟩ := continues_of_open hv hopen
    rw [List.flatMap_append, List.flatMap_singleton, Pattern.Walk.run_append]
    exact ((ih hbefore).accept_of_continues ht hcontinues).2.2.1
  | reset h hreset => exact stands_start (h.reachable.bound.start_of_reset hreset) ht
  | idle _ hq ih =>
    rw [call_of_idle hq] at hopen ⊢
    exact ih hopen

theorem recognizer_of_start_free (hm : Matcher.start l .free = .ok m) :
    m.recognizer = { lexicon := l, progress := .free } := by
  obtain ⟨-, r, hr, rfl⟩ := start_eq_ok hm
  cases hr
  rfl

/-- Without a grammar an open matcher has come nowhere. -/
theorem Behind.recognizer_eq (h : Behind l .free ids m) (hopen : m.terminated = false) :
    m.recognizer = { lexicon := l, progress := .free } := by
  induction h with
  | start hm => exact recognizer_of_start_free hm
  | take h hv ih =>
    obtain ⟨hcontinues, hbefore⟩ := continues_of_open hv hopen
    have houtcome := recognizer_accept hv
    rw [hcontinues, ih hbefore] at houtcome
    generalize (accept _ _).1.recognizer = next at houtcome ⊢
    cases houtcome with
    | free => rfl
    | grows _ _ hw => cases hw
  | reset h hreset => exact recognizer_of_start_free (h.reachable.bound.start_of_reset hreset)
  | idle _ hq ih =>
    rw [call_of_idle hq] at hopen ⊢
    exact ih hopen

/-! ### Stop tokens -/

/-- Without a grammar a stop token is permitted if its slot is not empty. -/
theorem accept_stop_of_free (h : Behind l .free ids m) (hopen : m.terminated = false) (hstop : stop ∈ l.stop) :
    (m.accept stop).2 ≠ .rejected ↔ l.vocabulary.surface? stop ≠ some "" := by
  have hbound := h.reachable.bound
  have hlt := hbound.stop_lt stop hstop
  obtain ⟨s, hs⟩ : ∃ s, l.vocabulary.surface? stop = some s := ⟨_, Array.getElem?_eq_getElem hlt⟩
  have hspecial : l.isSpecial stop = false := by
    rw [Lexicon.isSpecial, List.contains_eq_mem, decide_eq_false_iff_not]
    exact fun hmem => l.special_not_stop stop hmem hstop
  have hpermits : m.recognizer.permits stop = true ↔ s ≠ "" := by
    rw [h.recognizer_eq hopen]
    simp [Recognizer.permits, hspecial, hs]
  rw [accept_ne_rejected_iff, hpermits, hopen, hbound.lexicon_eq, hs, Ne, Ne, Option.some.injEq]
  exact ⟨fun hall => hall.2.2, fun hne => ⟨rfl, hlt, hne⟩⟩

/-- Under a pattern a stop token is permitted if the text is complete. -/
theorem accept_stop_of_pattern {text : String} (hp : Pattern.ofText? text = some p) (h : Behind l (.pattern p) ids m)
    (hopen : m.terminated = false) (hstop : stop ∈ l.stop) :
    (m.accept stop).2 ≠ .rejected ↔ Complete l (.pattern p) ids := by
  have hbound := h.reachable.bound
  obtain ⟨_, -, table, ht, -⟩ := hbound.follows
  rw [(h.stands hopen ht).accept_stop ht hstop (hbound.stop_lt stop hstop), Pattern.isComplete_run_start_iff hp]
  constructor
  · intro hmatches
    exact ⟨table, ht, hmatches⟩
  · rintro ⟨table', ht', hmatches⟩
    cases ht.symm.trans ht'
    exact hmatches

/-- The text does not go on behind a stop token. -/
theorem Bound.accept_stop_ne_continues (h : Bound l c m) (hstop : stop ∈ l.stop) : (m.accept stop).2 ≠ .continues := by
  intro hcontinues
  obtain ⟨_, hlexicon, -⟩ := h.follows
  have haccepts : (m.accept stop).2 ≠ .rejected := by simp [hcontinues]
  have houtcome := recognizer_accept haccepts
  rw [hcontinues] at houtcome
  have hisStop : m.recognizer.lexicon.isStop stop = true := by
    rw [hlexicon]
    exact Lexicon.isStop_iff.mpr hstop
  generalize (m.accept stop).1.recognizer = next at houtcome
  cases houtcome with
  | free _ hnot => cases hisStop.symm.trans hnot
  | grows _ hnot => cases hisStop.symm.trans hnot

/-- In an open matcher a stop token is permitted, and ends the text, exactly where the text so far is complete, with one
exception: without a grammar a stop token whose slot is empty is rejected. -/
theorem mem_mask_stop_iff {grammar : Grammar} (hg : grammar.compile = .ok c) (h : Reachable l c m)
    (hopen : m.terminated = false) (hstop : stop ∈ l.stop) :
    (∃ ids, Behind l c ids m) ∧ ∀ ids, Behind l c ids m →
      (stop ∈ m.mask ↔ Complete l c ids ∧ ¬ Blocked l c stop) ∧
      ((m.accept stop).2 = .terminal ↔ Complete l c ids ∧ ¬ Blocked l c stop) ∧
      ((m.accept stop).2 = .rejected ↔ ¬ (Complete l c ids ∧ ¬ Blocked l c stop)) := by
  refine ⟨exists_behind h, fun ids hids => ?_⟩
  have haccept : (m.accept stop).2 ≠ .rejected ↔ Complete l c ids ∧ ¬ Blocked l c stop := by
    rw [Blocked]
    cases c with
    | free => simpa [Complete] using accept_stop_of_free hids hopen hstop
    | pattern p =>
      cases grammar with
      | pattern text => simpa using accept_stop_of_pattern (ofText?_of_ofPattern hg) hids hopen hstop
      | free => cases hg
      | jsonSchema schema indent => cases hg
      | lark source => cases hg
  have hends : (m.accept stop).2 = .terminal ↔ (m.accept stop).2 ≠ .rejected := by
    have hnot := h.bound.accept_stop_ne_continues hstop
    cases hanswer : (m.accept stop).2 with
    | continues => exact absurd hanswer hnot
    | terminal => simp
    | rejected => simp
  refine ⟨(mem_mask_iff_accept h.bound).trans haccept, hends.trans haccept, ?_⟩
  rw [← haccept, not_not]

def emptyEnd : Lexicon := Lexicon.ofSurfaces ["a", ""] [1]

def letterPattern : Pattern := ⟨"a", .seq (.ofSet (.singleton 'a')) (.look .textEnd)⟩

/-- Behind the letter, under a pattern, the end is permitted although its slot is empty. -/
theorem mem_mask_stop_iff_letter :
    ∃ m, Matcher.start emptyEnd (.pattern letterPattern) = .ok m ∧ (m.accept 0).2 = .continues ∧
      1 ∈ (m.accept 0).1.mask ∧ ((m.accept 0).1.accept 1).2 = .terminal := by
  have hc : Constraint.ofPattern "a" = .ok (.pattern letterPattern) := by cbv
  have hg : (Grammar.pattern "a").compile = .ok (.pattern letterPattern) := hc
  have htable : emptyEnd.table = .ok #[[0x61], []] := by cbv
  have hm : ∃ m, Matcher.start emptyEnd (.pattern letterPattern) = .ok m ∧ (m.accept 0).2 = .continues :=
    ⟨_, by cbv, by cbv⟩
  obtain ⟨m, hstart, hcontinues⟩ := hm
  have hbehind : Behind emptyEnd (.pattern letterPattern) [0] (m.accept 0).1 :=
    .take (.start hstart) (by simp [hcontinues])
  obtain ⟨table, ht, hstands⟩ := stands_of_start hstart
  have hopen := (hstands.accept_of_continues ht hcontinues).2.2.1.open_text
  have hcomplete : Complete emptyEnd (.pattern letterPattern) [0] := by
    refine ⟨_, htable, ?_⟩
    rw [← Pattern.isComplete_run_start_iff (ofText?_of_ofPattern hc)]
    cbv
  have hstop : 1 ∈ emptyEnd.stop := by decide
  obtain ⟨hmask, hend, -⟩ := (mem_mask_stop_iff hg hbehind.reachable hopen hstop).2 [0] hbehind
  have hfree : ¬ Blocked emptyEnd (.pattern letterPattern) 1 := by simp [Blocked]
  exact ⟨m, hstart, hcontinues, hmask.mpr ⟨hcomplete, hfree⟩, hend.mpr ⟨hcomplete, hfree⟩⟩

/-- Without a grammar every text is complete, and still the end whose slot is empty is rejected. -/
theorem stop_of_empty_slot :
    ∃ m, Matcher.start emptyEnd .free = .ok m ∧ m.terminated = false ∧ 1 ∈ emptyEnd.stop ∧
      (1 : TokenId).toNat < emptyEnd.size ∧ Complete emptyEnd .free [] ∧ 1 ∉ m.mask ∧ (m.accept 1).2 = .rejected := by
  refine ⟨_, rfl, rfl, by decide, by decide, trivial, by decide, by decide⟩

end Matcher
end GuidedDecoding
