import GuidedDecoding.Proofs.Matcher.Open

/-!
# Texts that end without a stop token

Where there is no stop token, a text of a pattern ends with the token behind which nothing may follow, if it matches
there. A gate asks for this when it accepts a token, and so a text that matches and cannot go on has ended before
its scores are masked. Only at the start no token has been accepted: a pattern that matches the empty text, and
that no token can begin, makes masking fail (`apply_of_matches`).
-/

namespace GuidedDecoding
namespace LogitGate

open Matcher (Grows)

variable {l : Lexicon} {p : Pattern} {table : Array Bytes} {m : Matcher} {g : LogitGate} {id : TokenId}
  {ids : List TokenId}

/-- The gates of a matcher behind the tokens that they accepted since the start, none of which ended the text. -/
inductive Behind (m : Matcher) : List TokenId → LogitGate → Prop where
  | start : Behind m [] (.ofMatcher m)
  | apply {ids : List TokenId} {g : LogitGate} (scores : Tensor) : Behind m ids g →
      Behind m ids (g.apply scores).1
  | accept {ids : List TokenId} {g : LogitGate} {id : TokenId} : Behind m ids g →
      (g.accept id).2 = .ok .continues → Behind m (ids ++ [id]) (g.accept id).1
  | reset {ids : List TokenId} {g : LogitGate} : Behind m ids g → Behind m [] g.reset.1

/-- A reset cannot fail, and the matcher behind it is the new one. -/
theorem matcher_reset {c : Constraint} (hbound : Matcher.Bound l c g.matcher) (hm : Matcher.start l c = .ok m) :
    g.reset.1.matcher = m := by
  unfold reset
  dsimp only
  rw [hbound.reset_eq hm]

/-- Behind the tokens the matcher has come as far as their bytes. If these match without a stop token, some token
may follow, unless there were no tokens. -/
theorem Behind.stands (hg : Behind m ids g) (hm : Matcher.start l (.pattern p) = .ok m) (ht : l.table = .ok table) :
    Matcher.Bound l (.pattern p) g.matcher ∧
      g.matcher.Stands l table (p.start.run (ids.flatMap (l.contribution table))) ∧
      (ids ≠ [] → l.stop.isEmpty = true → (p.start.run (ids.flatMap (l.contribution table))).isComplete = true →
        Grows l table (p.start.run (ids.flatMap (l.contribution table)))) := by
  induction hg with
  | start => exact ⟨Matcher.bound_of_start hm, Matcher.stands_start hm ht, fun hne => absurd rfl hne⟩
  | apply scores _ ih => exact ih
  | @accept ids g id _ haccept ih =>
    obtain ⟨hbound, hstands, -⟩ := ih
    obtain ⟨hv, hne⟩ := accept_eq_ok_iff.mp haccept
    have hnext := (hstands.accept_of_continues ht hv).2.2.1
    have hreject : (g.matcher.accept id).2 ≠ .rejected := by rw [hv]; exact hne
    have hterminal := hstands.accept_eq_terminal_iff ht hreject
    rw [accept_of_ne_rejected hreject]
    simp only [List.flatMap_append, List.flatMap_singleton, Pattern.Walk.run_append]
    refine ⟨hbound.accept id, hnext, ?_⟩
    intro _ hempty hcomplete
    by_contra hgrows
    have hend := hterminal.mpr (Or.inr ⟨hempty, hcomplete, hgrows⟩)
    rw [hv] at hend
    cases hend
  | reset _ ih =>
    rw [matcher_reset ih.1 hm]
    exact ⟨Matcher.bound_of_start hm, Matcher.stands_start hm ht, fun hne => absurd rfl hne⟩

theorem apply_eq_error_iff_mask (hbound : Matcher.Bound l (.pattern p) g.matcher) {xs : List Float32}
    (hwide : l.size ≤ xs.length) :
    (g.apply (.ofSingles xs)).2 = .error .nothingPermitted ↔ ∀ id, id ∉ g.matcher.mask := by
  rw [apply_eq_error_iff]
  constructor
  · intro hnarrow id hid
    have hlt : id.toNat < l.size := ((Matcher.mem_mask hbound).mp hid).2.1
    have hle := hnarrow id hid
    omega
  · intro hempty id hid
    exact absurd hid (hempty id)

/-- Masking the scores of a whole vocabulary fails behind a match only at the start, if there is no stop token and
no token can begin the text. A token ends the text if it is a stop token, or if there is none, the text matches, and
no token can go on with it. -/
theorem apply_of_matches {text : String} (hc : Constraint.ofPattern text = .ok (.pattern p))
    (hm : Matcher.start l (.pattern p) = .ok m) (hg : Behind m ids g) {xs : List Float32} (hwide : l.size ≤ xs.length) :
    ∃ table, l.table = .ok table ∧
      ((g.apply (.ofSingles xs)).2 = .error .nothingPermitted ∧
          p.expr.Matches none (ids.flatMap (l.contribution table)) none ↔
        ids = [] ∧ l.stop.isEmpty = true ∧ p.expr.Matches none [] none ∧ ¬ Grows l table p.start) ∧
      ∀ id, (g.accept id).2 = .ok .terminal ↔ (g.matcher.accept id).2 ≠ .rejected ∧
        (id ∈ l.stop ∨ l.stop.isEmpty = true ∧
          p.expr.Matches none ((ids ++ [id]).flatMap (l.contribution table)) none ∧
          ¬ Grows l table (p.start.run ((ids ++ [id]).flatMap (l.contribution table)))) := by
  have hp := ofText?_of_ofPattern hc
  obtain ⟨table, ht, -⟩ := Matcher.stands_of_start hm
  obtain ⟨hbound, hstands, hgrows⟩ := hg.stands hm ht
  refine ⟨table, ht, ?_, ?_⟩
  -- `hgrows`: past the first token a complete text that nothing can follow has ended already
  · rw [apply_eq_error_iff_mask hbound hwide, hstands.not_mem_mask_iff ht hbound]
    simp only [← Pattern.isComplete_run_start_iff hp]
    constructor
    · rintro ⟨⟨hstuck, hstop⟩, hcomplete⟩
      have hempty : l.stop.isEmpty = true := by
        rw [StopSet.isEmpty, List.isEmpty_iff]
        exact List.eq_nil_iff_forall_not_mem.mpr (hstop hcomplete)
      have hids : ids = [] := by
        by_contra hne
        exact hstuck (hgrows hne hempty hcomplete)
      subst hids
      exact ⟨rfl, hempty, hcomplete, hstuck⟩
    · rintro ⟨rfl, hempty, hcomplete, hstuck⟩
      refine ⟨⟨hstuck, ?_⟩, hcomplete⟩
      intro _ stop
      rw [StopSet.isEmpty, List.isEmpty_iff] at hempty
      exact List.eq_nil_iff_forall_not_mem.mp hempty stop
  -- the gate says what its matcher says, unless that rejects the token
  · intro id
    simp only [← Pattern.isComplete_run_start_iff hp, List.flatMap_append, List.flatMap_singleton,
      Pattern.Walk.run_append]
    rw [accept_eq_ok_iff]
    constructor
    · rintro ⟨hv, hne⟩
      have hreject : (g.matcher.accept id).2 ≠ .rejected := by rw [hv]; exact hne
      exact ⟨hreject, (hstands.accept_eq_terminal_iff ht hreject).mp hv⟩
    · rintro ⟨hreject, hend⟩
      exact ⟨(hstands.accept_eq_terminal_iff ht hreject).mpr hend, by decide⟩

def twoLetters : Lexicon := Lexicon.ofSurfaces ["a", "b"] []

def maybeB : Pattern :=
  ⟨"a|ab", .seq (.alt (.ofSet (.singleton 'a')) (.seq (.ofSet (.singleton 'a')) (.ofSet (.singleton 'b'))))
    (.look .textEnd)⟩

def maybeBMatcher : Matcher where
  lexicon := twoLetters
  constraint := .pattern maybeB
  recognizer := { lexicon := twoLetters, progress := .walk #[[0x61], [0x62]] maybeB.start }

/-- The first letter is a match, and masking does not fail behind it; the second one ends the text. -/
theorem apply_of_matches_maybeB :
    ∃ g, Behind maybeBMatcher [0] g ∧ maybeB.expr.Matches none [0x61] none ∧
      (g.apply (.ofSingles [0, 0])).2 ≠ .error .nothingPermitted ∧ (g.accept 1).2 = .ok .terminal := by
  have hc : Constraint.ofPattern "a|ab" = .ok (.pattern maybeB) := by cbv
  have hm : Matcher.start twoLetters (.pattern maybeB) = .ok maybeBMatcher := by cbv
  have htable : twoLetters.table = .ok #[[0x61], [0x62]] := by cbv
  have haccept : ((LogitGate.ofMatcher maybeBMatcher).accept 0).2 = .ok .continues := by cbv
  have hbehind : Behind maybeBMatcher [0] ((LogitGate.ofMatcher maybeBMatcher).accept 0).1 := .accept .start haccept
  have hmatches : maybeB.expr.Matches none [0x61] none := by
    rw [← Pattern.isComplete_run_start_iff (ofText?_of_ofPattern hc)]
    cbv
  have hwide : twoLetters.size ≤ ([0, 0] : List Float32).length := by decide
  obtain ⟨table, ht, hfails, -⟩ := apply_of_matches hc hm hbehind hwide
  cases ht.symm.trans htable
  refine ⟨_, hbehind, hmatches, ?_, by cbv⟩
  intro hfail
  have hstart := (hfails.mp ⟨hfail, hmatches⟩).1
  cases hstart

/-- The empty text is a match of the empty pattern, and no token can begin it: the matcher has not ended the text, and
masking fails. -/
theorem apply_of_empty_pattern :
    ∃ p m, Constraint.ofPattern "" = .ok (.pattern p) ∧ Matcher.start twoLetters (.pattern p) = .ok m ∧
      p.expr.Matches none [] none ∧ m.terminated = false ∧
      ((LogitGate.ofMatcher m).apply (.ofSingles [0, 0])).2 = .error .nothingPermitted := by
  have hc : Constraint.ofPattern "" = .ok (.pattern ⟨"", .look .textEnd⟩) := by cbv
  have hm : ∃ m, Matcher.start twoLetters (.pattern ⟨"", .look .textEnd⟩) = .ok m ∧ m.terminated = false ∧
      m.mask.toList = [] := ⟨_, by cbv, by cbv, by cbv⟩
  obtain ⟨m, hstart, hopen, hmask⟩ := hm
  refine ⟨_, m, hc, hstart, ⟨rfl, rfl⟩, hopen, ?_⟩
  apply (apply_eq_error_iff _ _).mpr
  intro id hid
  have hmem : id ∈ m.mask.toList := TokenMask.mem_toList.mpr hid
  rw [hmask] at hmem
  cases hmem

end LogitGate
end GuidedDecoding
