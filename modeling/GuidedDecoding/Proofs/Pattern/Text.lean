import GuidedDecoding.Pattern.Walk
import GuidedDecoding.Proofs.Pattern.Reader
import GuidedDecoding.Proofs.Text.Utf8

/-!
# Patterns match texts

The expressions of patterns are over bytes, but those that patterns stand for match whole characters: bytes
that match a pattern are those of a text (`Walk.isText_of_isComplete`).

What is left of an expression behind some bytes begins where a reader of these bytes stands, and ends between
characters. This is `Expr.At`; every expression of a pattern is at the place between two characters
(`ofText?_at`), and a byte moves what is left of it along with the reader (`Expr.exists_next_of_mem_step`).
-/

namespace GuidedDecoding.Pattern

open Utf8 (Reading)

namespace Expr

/-- What the expression matches begins where the reader stands, and ends between characters. -/
def At (r : Reading) : Expr → Prop
  | .empty => r = .between
  | .chars _ reading => reading = r
  | .look _ => r = .between
  | .seq first second => first.At r ∧ second.At .between
  | .alt left right => left.At r ∧ right.At r
  | .rep body _ _ => r = .between ∧ body.At .between

variable {r : Reading} {e next : Expr} {around : Surroundings} {before : Option UInt8} {b : UInt8}

/-! ### Making expressions -/

theorem at_ofSet (set : CharSet) : (ofSet set).At .between := rfl

theorem At.repetition (h : e.At .between) (min : Nat) (max : Option Nat) :
    (e.repetition min max).At .between := by
  unfold Expr.repetition
  split
  · exact rfl
  · exact ⟨rfl, h⟩

/-- Whatever comes behind an expression begins between characters. -/
theorem At.andThen (h : e.At r) (hnext : next.At .between) : (e.andThen next).At r := by
  fun_cases Expr.andThen e next with
  | case1 =>
    cases h
    exact hnext
  | case2 => exact h
  | case3 => exact ⟨h, hnext⟩

theorem at_concat {es : List Expr} (h : ∀ e ∈ es, e.At .between) : (concat es).At .between := by
  induction es with
  | nil => exact rfl
  | cons e es ih =>
    rw [List.forall_mem_cons] at h
    exact h.1.andThen (ih h.2)

theorem at_choice {es : List Expr} (h : ∀ e ∈ es, e.At .between) : (choice es).At .between := by
  fun_induction choice es with
  | case1 => exact at_ofSet .empty
  | case2 e => exact h e (List.mem_singleton_self e)
  | case3 e rest _ ih =>
    rw [List.forall_mem_cons] at h
    exact ⟨h.1, ih h.2⟩

/-! ### Taking a byte -/

/-- An expression that may match nothing is between characters. -/
theorem At.eq_between (h : e.At r) (hempty : e.acceptsEmpty around = true) : r = .between := by
  induction e with
  | empty => exact h
  | chars => cases hempty
  | look => exact h
  | seq first second ih₁ ih₂ =>
    rw [acceptsEmpty, Bool.and_eq_true] at hempty
    exact ih₁ h.1 hempty.1
  | alt left right ih₁ ih₂ =>
    rw [acceptsEmpty, Bool.or_eq_true] at hempty
    exact hempty.elim (ih₁ h.1) (ih₂ h.2)
  | rep => exact h.1

/-- The byte moves the reader along with what is left of the expression. -/
theorem At.exists_next_of_mem_step (h : e.At r) (hmem : next ∈ e.step before b) :
    ∃ r', r.next? b = some r' ∧ next.At r' := by
  induction e generalizing r next with
  | empty => cases hmem
  | look => cases hmem
  -- Here the reader that the expression itself holds is the one of the bytes before.
  | chars set reading =>
    obtain rfl : reading = r := h
    rw [Expr.step, stepChars] at hmem
    unfold Reading.next?
    cases hb : reading.accept b with
    | more after =>
      simp only [hb] at hmem
      split at hmem
      · rw [List.mem_singleton] at hmem
        exact ⟨after, rfl, by rw [hmem]; rfl⟩
      · cases hmem
    | char c =>
      simp only [hb] at hmem
      split at hmem
      · rw [List.mem_singleton] at hmem
        exact ⟨.between, rfl, by rw [hmem]; rfl⟩
      · cases hmem
    | refused =>
      simp only [hb] at hmem
      cases hmem
  | seq first second ih₁ ih₂ =>
    have hthrough : next ∈ (first.step before b).map (·.andThen second) →
        ∃ r', r.next? b = some r' ∧ next.At r' := by
      rw [List.mem_map]
      rintro ⟨left, hleft, rfl⟩
      obtain ⟨r', hr', hat⟩ := ih₁ h.1 hleft
      exact ⟨r', hr', hat.andThen h.2⟩
    rw [Expr.step] at hmem
    split at hmem
    · -- The byte may belong to the second part only where the first one may be empty.
      next hempty =>
      rw [List.mem_append] at hmem
      rcases hmem with hmem | hmem
      · exact hthrough hmem
      · rw [h.1.eq_between hempty]
        exact ih₂ h.2 hmem
    · exact hthrough hmem
  | alt left right ih₁ ih₂ =>
    rw [Expr.step, List.mem_append] at hmem
    rcases hmem with hmem | hmem
    · exact ih₁ h.1 hmem
    · exact ih₂ h.2 hmem
  | rep body min max ih =>
    obtain ⟨rfl, hbody⟩ := h
    rw [Expr.step] at hmem
    split at hmem
    · cases hmem
    · rw [List.mem_map] at hmem
      obtain ⟨left, hleft, rfl⟩ := hmem
      obtain ⟨r', hr', hat⟩ := ih hbody hleft
      exact ⟨r', hr', hat.andThen (hbody.repetition _ _)⟩

end Expr

/-! ### Expressions of patterns -/

/-- A property that passes from the parts of a pattern's expression to the expression. -/
structure Expr.Inherited (P : Expr → Prop) : Prop where
  empty : P .empty
  ofSet : ∀ set, P (.ofSet set)
  look : ∀ l, P (.look l)
  repetition : ∀ {e min max}, P e → (∀ m ∈ max, min ≤ m) → P (e.repetition min max)
  concat : ∀ {es}, (∀ e ∈ es, P e) → P (.concat es)
  choice : ∀ {es}, (∀ e ∈ es, P e) → P (.choice es)

section Inherited

variable {P : Expr → Prop}

mutual
theorem Tree.meaning?_of_inherited (hP : Expr.Inherited P) {m m' : Mode} {e : Expr} :
    (t : Tree) → t.Ordered → t.meaning? m = some (e, m') → P e
  | .empty, _, h => by
    cases h
    exact hP.empty
  | .settings s, _, h => by
    cases h
    exact hP.empty
  | .literal l, _, h => by
    obtain ⟨c, -, h⟩ := Option.bind_eq_some_iff.mp h
    cases h
    exact hP.ofSet _
  | .dot, _, h => by
    rw [Tree.meaning?] at h
    split at h
    · cases h
      exact hP.ofSet _
    · cases h
  | .assertion a, _, h => by
    cases h
    exact hP.look _
  | .named n, _, h => by
    obtain ⟨set, -, h⟩ := Option.bind_eq_some_iff.mp h
    cases h
    exact hP.ofSet _
  | .bracketed negated body, _, h => by
    rw [Tree.meaning?] at h
    obtain ⟨set, -, h⟩ := Option.bind_eq_some_iff.mp h
    obtain ⟨set', -, h⟩ := Option.bind_eq_some_iff.mp h
    cases h
    exact hP.ofSet _
  | .repetition body min max, hordered, h => by
    rw [Tree.meaning?] at h
    obtain ⟨⟨e, m''⟩, hbody, h⟩ := Option.bind_eq_some_iff.mp h
    cases h
    exact hP.repetition (Tree.meaning?_of_inherited hP body hordered.1 hbody) hordered.2
  | .group s body, hordered, h => by
    rw [Tree.meaning?] at h
    obtain ⟨⟨e, m''⟩, hbody, h⟩ := Option.bind_eq_some_iff.mp h
    cases h
    exact Tree.meaning?_of_inherited hP body hordered hbody
  | .concatenation items, hordered, h => by
    rw [Tree.meaning?] at h
    obtain ⟨⟨es, m''⟩, hitems, h⟩ := Option.bind_eq_some_iff.mp h
    cases h
    exact hP.concat (Tree.meanings?_of_inherited hP items hordered hitems)
  | .alternation branches, hordered, h => by
    rw [Tree.meaning?] at h
    obtain ⟨⟨es, m''⟩, hbranches, h⟩ := Option.bind_eq_some_iff.mp h
    cases h
    exact hP.choice (Tree.meanings?_of_inherited hP branches hordered hbranches)

theorem Tree.meanings?_of_inherited (hP : Expr.Inherited P) {m m' : Mode} {es : List Expr} :
    (ts : List Tree) → Tree.AllOrdered ts → Tree.meanings? m ts = some (es, m') → ∀ e ∈ es, P e
  | [], _, h => by
    cases h
    exact fun _ hmem => nomatch hmem
  | t :: rest, hordered, h => by
    rw [Tree.meanings?] at h
    obtain ⟨⟨e, m₁⟩, ht, h⟩ := Option.bind_eq_some_iff.mp h
    obtain ⟨⟨es, m₂⟩, hrest, h⟩ := Option.bind_eq_some_iff.mp h
    cases h
    exact List.forall_mem_cons.mpr
      ⟨Tree.meaning?_of_inherited hP t hordered.1 ht, Tree.meanings?_of_inherited hP rest hordered.2 hrest⟩
end

variable {p : Pattern} {text : String} {bytes : Bytes}

theorem Expr.Inherited.of_expr? (hP : Expr.Inherited P) {t : Tree} {e : Expr} (ht : t.Ordered)
    (h : t.expr? = some e) : P e := by
  obtain ⟨⟨e', m⟩, hmeaning, h⟩ := Option.bind_eq_some_iff.mp h
  obtain ⟨-, -, h⟩ := Option.bind_eq_some_iff.mp h
  cases h
  exact Tree.meaning?_of_inherited hP t ht hmeaning

/-- The expression of a pattern has every property that passes from parts to the whole. -/
theorem ofText?_of_inherited (hP : Expr.Inherited P) (h : ofText? text = some p) : P p.expr := by
  unfold ofText? at h
  obtain ⟨tree, htree, h⟩ := Option.bind_eq_some_iff.mp h
  obtain ⟨e, hexpr, h⟩ := Option.bind_eq_some_iff.mp h
  cases h
  exact hP.of_expr? (Tree.ordered_of_read? htree) hexpr

end Inherited

variable {p : Pattern} {text : String} {bytes : Bytes}

theorem Expr.inherited_at : Expr.Inherited (·.At .between) where
  empty := rfl
  ofSet := Expr.at_ofSet
  look := fun _ => rfl
  repetition := fun h _ => h.repetition _ _
  concat := Expr.at_concat
  choice := Expr.at_choice

/-- What a pattern matches begins between characters. -/
theorem ofText?_at (h : ofText? text = some p) : p.expr.At .between := ofText?_of_inherited Expr.inherited_at h

/-! ### Walks -/

namespace Walk

/-- Where anything is left of a pattern, a reader has refused no byte, and what is left goes on from there. -/
theorem exists_follow_of_mem_residuals (h : p.expr.At .between) {e : Expr}
    (he : e ∈ (p.start.run bytes).residuals) :
    ∃ r, Reading.between.follow? bytes = some r ∧ e.At r := by
  induction bytes using List.reverseRecOn generalizing e with
  | nil =>
    obtain rfl : e = p.expr := List.mem_singleton.mp he
    exact ⟨.between, rfl, h⟩
  | append_singleton bs b ih =>
    rw [run_append] at he
    have he' : e ∈ ((p.start.run bs).residuals.flatMap (·.step (p.start.run bs).before b)).eraseDups := he
    rw [List.mem_eraseDups, List.mem_flatMap] at he'
    obtain ⟨e₀, he₀, hstep⟩ := he'
    obtain ⟨r, hr, hat⟩ := ih he₀
    obtain ⟨r', hr', hat'⟩ := hat.exists_next_of_mem_step hstep
    refine ⟨r', ?_, hat'⟩
    rw [Reading.follow?_append, hr, Option.bind_some, Reading.follow?, hr']
    rfl

/-- Bytes that match a pattern are those of a text. -/
theorem isText_of_isComplete (h : ofText? text = some p) (hend : (p.start.run bytes).isComplete = true) :
    Utf8.IsText bytes := by
  unfold isComplete at hend
  rw [List.any_eq_true] at hend
  obtain ⟨e, he, hempty⟩ := hend
  obtain ⟨r, hr, hat⟩ := exists_follow_of_mem_residuals (ofText?_at h) he
  rw [hat.eq_between hempty] at hr
  exact hr

end Walk
end GuidedDecoding.Pattern
