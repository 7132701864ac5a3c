import GuidedDecoding.LogitGate
import GuidedDecoding.Proofs.Matcher

/-!
# Masked scores

What a gate lets pass is what the matcher behind it would accept: `apply` keeps the score of a token exactly
when offering that token would not be rejected, and fails only if no such token has a score.
-/

namespace GuidedDecoding
namespace LogitGate

open Matcher (Reachable)

variable {l : Lexicon} {c : Constraint} {m : Matcher} {g : LogitGate} {id : TokenId}

/-! ### Offering a token -/

/-- A token that is rejected changes nothing, and is an error. -/
theorem accept_of_rejected (h : (g.matcher.accept id).2 = .rejected) :
    g.accept id = (g, .error (.tokenNotPermitted id)) := by
  have hsame := Matcher.accept_of_rejected h
  unfold accept
  rcases hanswer : g.matcher.accept id with ⟨m, v⟩
  rw [hanswer] at h hsame
  cases h
  cases hsame
  rfl

/-- A token that is not rejected moves the matcher on. -/
theorem accept_of_ne_rejected (h : (g.matcher.accept id).2 ≠ .rejected) :
    g.accept id = ({ g with matcher := (g.matcher.accept id).1 }, .ok (g.matcher.accept id).2) := by
  unfold accept
  rcases hanswer : g.matcher.accept id with ⟨m, v⟩
  rw [hanswer] at h
  cases v with
  | rejected => exact absurd rfl h
  | continues => rfl
  | terminal => rfl

/-- A gate passes the verdicts of its matcher on, and makes an error of a token that is rejected. -/
theorem accept_eq_ok_iff {v : Verdict} :
    (g.accept id).2 = .ok v ↔ (g.matcher.accept id).2 = v ∧ v ≠ .rejected := by
  by_cases hv : (g.matcher.accept id).2 = .rejected
  · rw [accept_of_rejected hv, hv]
    simp [eq_comm]
  · rw [accept_of_ne_rejected hv]
    constructor
    · intro h
      cases h
      exact ⟨rfl, hv⟩
    · rintro ⟨rfl, -⟩
      rfl

/-! ### Masking a row of scores -/

/-- Masking a row of scores leaves the matcher as it is, and shows the mask that was used. -/
theorem apply_fst (g : LogitGate) (xs : List Float32) :
    (g.apply (.ofSingles xs)).1 = { g with mask := g.matcher.mask } := by
  unfold apply
  rw [g.matcher.fill_eq_mask]

theorem apply_snd (g : LogitGate) (xs : List Float32) :
    (g.apply (.ofSingles xs)).2 =
      if g.matcher.mask.toList.any fun id => id.toNat < xs.length then .ok (g.matcher.mask.apply xs)
      else .error .nothingPermitted := by
  unfold apply
  rw [g.matcher.fill_eq_mask]
  simp only [Tensor.ofSingles]
  cases g.matcher.mask.toList.any fun id => id.toNat < xs.length <;> rfl

theorem any_toList_iff (mask : TokenMask) (width : Nat) :
    (mask.toList.any fun id => id.toNat < width) = true ↔ ∃ id ∈ mask, id.toNat < width := by
  rw [List.any_eq_true]
  simp only [TokenMask.mem_toList, decide_eq_true_eq]

/-- Masking fails exactly when no id of the mask has a score. -/
theorem apply_eq_error_iff (g : LogitGate) (xs : List Float32) :
    (g.apply (.ofSingles xs)).2 = .error .nothingPermitted ↔ ∀ id ∈ g.matcher.mask, xs.length ≤ id.toNat := by
  -- the mask is applied exactly where some permitted token lies within the row
  rw [apply_snd]
  split
  · next hany =>
    obtain ⟨id, hid, hlt⟩ := (any_toList_iff _ _).mp hany
    constructor
    · intro hfail
      cases hfail
    · intro hall
      exact absurd (hall id hid) (Nat.not_le.mpr hlt)
  · next hany =>
    constructor
    · intro _ id hid
      by_contra hlt
      exact hany ((any_toList_iff _ _).mpr ⟨id, hid, Nat.not_le.mp hlt⟩)
    · intro _
      rfl

/-- With a permitted token within the row the scores are masked. -/
theorem apply_eq_ok {g : LogitGate} {xs : List Float32} (h : ∃ id ∈ g.matcher.mask, id.toNat < xs.length) :
    (g.apply (.ofSingles xs)).2 = .ok (g.matcher.mask.apply xs) := by
  rw [apply_snd, if_pos ((any_toList_iff _ _).mpr h)]

/-- In every state of a matcher, whatever has been asked of it, the mask and the answers agree. The mask of
any buffer is the fresh one; it holds the ids that would be accepted and no others, none of them special,
beyond the vocabulary or, stop tokens apart, without bytes; and masking scores keeps exactly the scores of
those ids, unless none of them has a score. -/
theorem mask_agrees_with_accept (h : Reachable l c m) :
    (∀ buffer, m.fill buffer = m.mask) ∧
    (∀ id, id ∈ m.mask ↔ (m.accept id).2 = .continues ∨ (m.accept id).2 = .terminal) ∧
    (∀ id ∈ m.mask, id.toNat < l.size ∧ id ∉ l.special ∧
      (id ∉ l.stop → ∀ s, l.vocabulary.surface? id = some s → l.bytesOf id s ≠ .ok [])) ∧
    ∀ (g : LogitGate) (xs : List Float32), g.matcher = m →
      (g.apply (.ofSingles xs)).1.matcher = m ∧
      ((g.apply (.ofSingles xs)).2 = .error .nothingPermitted ↔
        ∀ id ∈ m.mask, xs.length ≤ id.toNat) ∧
      ((∃ id ∈ m.mask, id.toNat < xs.length) →
        ∃ ys, (g.apply (.ofSingles xs)).2 = .ok ys ∧ ys.length = xs.length ∧
          ∀ (i : Nat) x, xs[i]? = some x →
            ys[i]? = some (if (m.accept i.toUInt32).2 = .rejected then Float32.ofBits 0xFF800000
              else x)) := by
  have hbound := h.bound
  refine ⟨m.fill_eq_mask, ?_, ?_, ?_⟩
  · intro id
    rw [Matcher.mem_mask_iff_accept hbound]
    cases (m.accept id).2 <;> decide
  · intro id hid
    refine ⟨((Matcher.mem_mask hbound).mp hid).2.1, Matcher.not_mem_special_of_mem_mask hbound hid, ?_⟩
    intro hstop s hs
    exact Matcher.bytesOf_ne_nil_of_mem_mask hbound hid hs hstop
  · rintro g xs rfl
    refine ⟨by rw [apply_fst], apply_eq_error_iff g xs, ?_⟩
    intro hsome
    refine ⟨_, apply_eq_ok hsome, TokenMask.length_apply _ _, ?_⟩
    intro i x hx
    -- An entry stays where its id is in the mask, and there the id would be accepted.
    have hmem : g.matcher.mask.contains i.toUInt32 = true ↔
        (g.matcher.accept i.toUInt32).2 ≠ .rejected := Matcher.mem_mask_iff_accept hbound
    rw [TokenMask.getElem?_apply hx]
    by_cases hreject : (g.matcher.accept i.toUInt32).2 = .rejected
    · have hout : g.matcher.mask.contains i.toUInt32 = false := by
        rw [Bool.eq_false_iff]
        intro hin
        exact hmem.mp hin hreject
      simp [hreject, hout]
    · simp [hreject, hmem.mpr hreject]

/-- Two letters, a control mark and an end. -/
def letters : Lexicon := (Lexicon.ofSurfaces ["a", "b", "<c>", "</s>"] [3]).withSpecial [2]

def abPattern : Pattern :=
  ⟨"ab", .seq (.seq (.ofSet (.singleton 'a')) (.ofSet (.singleton 'b'))) (.look .textEnd)⟩

def abMatcher : Matcher where
  lexicon := letters
  constraint := .pattern abPattern
  recognizer :=
    { lexicon := letters
      progress := .walk #[[0x61], [0x62], [], [0x3C, 0x2F, 0x73, 0x3E]] abPattern.start }

/-- Behind `a` the pattern `ab` has `b` in its mask, because `b` would be accepted. -/
theorem mask_agrees_with_accept_behind_a :
    Reachable letters (.pattern abPattern) (abMatcher.accept 0).1 ∧ 1 ∈ (abMatcher.accept 0).1.mask := by
  have hstart : Matcher.start letters (.pattern abPattern) = .ok abMatcher := by cbv
  have hbehind : Reachable letters (.pattern abPattern) (abMatcher.accept 0).1 :=
    .call (.accept 0) (.start hstart)
  have haccept : ((abMatcher.accept 0).1.accept 1).2 = .continues := by cbv
  exact ⟨hbehind, ((mask_agrees_with_accept hbehind).2.1 1).mpr (Or.inl haccept)⟩

end LogitGate
end GuidedDecoding
