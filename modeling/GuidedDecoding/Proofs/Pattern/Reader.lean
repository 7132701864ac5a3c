import GuidedDecoding.Pattern.Reader
import Mathlib

/-!
# What readers of patterns give

A reader is a state that may be missing; `run_bind_eq_some` takes two of them apart that stand behind each other.
Where only what is read matters, and not where the reader stands, `Gives` says what holds of it.

The reader of repetitions refuses one that asks for more times than it allows, so no tree that is read has any
(`Tree.ordered_of_read?`). What has been read at some point nests no more deeply than the whole
(`gives_branches_depth`).
-/

namespace GuidedDecoding.Pattern

/-! ### What a reader gives -/

section Gives

variable {α β : Type} {s : Cursor} {P : α → Prop} {Q : β → Prop} {x : Read α} {f : α → Read β} {a : α}

/-- Two readers one behind the other succeed when both do. -/
theorem run_bind_eq_some {r : β × Cursor} :
    StateT.run (x >>= f) s = some r ↔ ∃ a t, StateT.run x s = some (a, t) ∧ StateT.run (f a) t = some r := by
  rw [StateT.run_bind]
  constructor
  · intro h
    obtain ⟨⟨a, t⟩, hx, hf⟩ := Option.bind_eq_some_iff.mp h
    exact ⟨a, t, hx, hf⟩
  · rintro ⟨a, t, hx, hf⟩
    exact Option.bind_eq_some_iff.mpr ⟨(a, t), hx, hf⟩

def Gives (x : Read α) (P : α → Prop) : Prop := ∀ s a t, StateT.run x s = some (a, t) → P a

theorem gives_pure (h : P a) : Gives (pure a) P := by
  intro s b t hrun
  cases hrun
  exact h

theorem gives_failure : Gives failure P := by
  intro s a t hrun
  cases hrun

/-- What the first reader gives can be relied on by the second. -/
theorem Gives.bind (hx : Gives x P) (hf : ∀ a, P a → Gives (f a) Q) : Gives (x >>= f) Q := by
  intro s b u hrun
  obtain ⟨a, t, hxt, hft⟩ := run_bind_eq_some.mp hrun
  exact hf a (hx s a t hxt) t b u hft

/-- What the first reader gives does not matter. -/
theorem gives_bind (hf : ∀ a, Gives (f a) Q) : Gives (x >>= f) Q := by
  intro s b u hrun
  obtain ⟨a, t, -, hft⟩ := run_bind_eq_some.mp hrun
  exact hf a t b u hft

theorem gives_guard {p : Prop} [Decidable p] : Gives (guard p : Read Unit) fun _ => p := by
  intro s a t hrun
  by_cases hp : p
  · exact hp
  · rw [guard, if_neg hp] at hrun
    cases hrun

theorem gives_ite {p : Prop} [Decidable p] {y : Read α} (hx : Gives x P) (hy : Gives y P) :
    Gives (if p then x else y) P := by
  split
  · exact hx
  · exact hy

theorem gives_ofOption (o : Option α) : Gives (Read.ofOption o) fun a => a ∈ o := by
  intro s a t hrun
  cases o with
  | none => cases hrun
  | some b =>
    cases hrun
    rfl

end Gives

/-! ### Trees -/

mutual
def Tree.Ordered : Tree → Prop
  | .empty | .settings _ | .literal _ | .dot | .assertion _ | .named _ | .bracketed _ _ => True
  | .repetition body min max => body.Ordered ∧ ∀ m ∈ max, min ≤ m
  | .group _ body => body.Ordered
  | .concatenation items => Tree.AllOrdered items
  | .alternation branches => Tree.AllOrdered branches

def Tree.AllOrdered : List Tree → Prop
  | [] => True
  | t :: rest => t.Ordered ∧ Tree.AllOrdered rest
end

namespace Tree

theorem allOrdered_iff {ts : List Tree} : Tree.AllOrdered ts ↔ ∀ t ∈ ts, t.Ordered := by
  induction ts with
  | nil => simp [Tree.AllOrdered]
  | cons t ts ih => rw [Tree.AllOrdered, ih, List.forall_mem_cons]

theorem AllOrdered.append {ts us : List Tree} (hts : Tree.AllOrdered ts) (hus : Tree.AllOrdered us) :
    Tree.AllOrdered (ts ++ us) := by
  rw [allOrdered_iff] at *
  exact List.forall_mem_append.mpr ⟨hts, hus⟩

theorem AllOrdered.concat {ts : List Tree} {t : Tree} (hts : Tree.AllOrdered ts) (ht : t.Ordered) :
    Tree.AllOrdered (ts ++ [t]) :=
  hts.append ⟨ht, trivial⟩

theorem AllOrdered.ofItems {ts : List Tree} (h : Tree.AllOrdered ts) : (Tree.ofItems ts).Ordered := by
  fun_cases Tree.ofItems ts with
  | case1 => exact trivial
  | case2 t => exact h.1
  | case3 => exact h

theorem AllOrdered.ofBranches {ts : List Tree} (h : Tree.AllOrdered ts) : (Tree.ofBranches ts).Ordered := by
  fun_cases Tree.ofBranches ts with
  | case1 => exact trivial
  | case2 t => exact h.1
  | case3 => exact h

end Tree

/-! ### Reading -/

open GuidedDecoding.Pattern.Tree (allOrdered_iff)

def boundsEnd (min : Nat) (max : Option Nat) : Read (Nat × Option Nat) := do
  guard ((← Read.current) = '\x7d' ∧ ∀ m, m ∈ max → min ≤ m)
  Read.advance
  preference
  return (min, max)

theorem gives_boundsEnd (min : Nat) (max : Option Nat) :
    Gives (boundsEnd min max) fun b => ∀ m ∈ b.2, b.1 ≤ m := by
  refine gives_bind fun c => gives_guard.bind fun _ hbounds => ?_
  exact gives_bind fun _ => gives_bind fun _ => gives_pure hbounds.2

theorem gives_bounds : Gives bounds fun b => ∀ m ∈ b.2, b.1 ≤ m := by
  refine gives_bind fun _ => gives_bind fun min => gives_bind fun c => ?_
  refine gives_ite ?_ (gives_boundsEnd min (some min))
  refine gives_bind fun _ => gives_bind fun d => gives_ite (gives_boundsEnd min none) ?_
  exact gives_bind fun max => gives_boundsEnd min (some max)

theorem gives_repetition? : Gives repetition? fun o => ∀ b ∈ o, ∀ m ∈ b.2, b.1 ≤ m := by
  have hsign {min : Nat} {max : Option Nat} (h : ∀ m ∈ max, min ≤ m) :
      Gives (do Read.skip 1; preference; return some (min, max)) fun o => ∀ b ∈ o, ∀ m ∈ b.2, b.1 ≤ m := by
    refine gives_bind fun _ => gives_bind fun _ => gives_pure ?_
    rintro b ⟨⟩
    exact h
  refine gives_bind fun l => ?_
  split
  · exact hsign fun m _ => Nat.zero_le m
  · exact hsign fun m _ => Nat.zero_le m
  · exact hsign fun m hm => nomatch hm
  · refine gives_bounds.bind fun b hb => gives_pure ?_
    rintro b' ⟨⟩
    exact hb
  · exact gives_pure fun b hb => nomatch hb

theorem gives_leaf : Gives leaf Tree.Ordered := by
  refine gives_bind fun c => ?_
  split
  · refine gives_bind fun e => ?_
    cases e <;> exact gives_pure trivial
  all_goals exact gives_bind fun _ => gives_pure trivial

theorem gives_bracketed : Gives bracketed Tree.Ordered :=
  gives_bind fun _ => gives_bind fun _ => gives_bind fun _ => gives_pure trivial

/-- Every tree that is read can be made. -/
theorem gives_branches (fuel : Nat) {done items : List Tree} (hdone : Tree.AllOrdered done)
    (hitems : Tree.AllOrdered items) : Gives (branches fuel done items) Tree.Ordered := by
  -- on the fuel; a repetition takes the last item back and puts it into one that can be made
  induction fuel generalizing done items with
  | zero => exact gives_failure
  | succ fuel ih =>
    have hnone : Tree.AllOrdered [] := trivial
    rw [branches]
    refine gives_bind fun _ => gives_bind fun l => ?_
    split
    · exact gives_pure (hdone.concat hitems.ofItems).ofBranches
    · exact gives_pure (hdone.concat hitems.ofItems).ofBranches
    · exact gives_bind fun _ => ih (hdone.concat hitems.ofItems) hnone
    · exact gives_bracketed.bind fun tree htree => ih hdone (hitems.concat htree)
    · refine gives_bind fun op => ?_
      cases op with
      | settings w => exact gives_bind fun _ => ih hdone (hitems.concat trivial)
      | group w =>
        refine gives_bind fun _ => gives_bind fun _ => (ih hnone hnone).bind fun body hbody => ?_
        exact gives_bind fun _ => gives_bind fun _ => ih hdone (hitems.concat hbody)
    · refine gives_repetition?.bind fun times htimes => ?_
      cases times with
      | some times =>
        refine (gives_ofOption _).bind fun body hbody => gives_bind fun _ => ?_
        rw [allOrdered_iff] at hitems
        have hlast : body.Ordered := hitems body (List.mem_of_getLast? hbody)
        have hinit : Tree.AllOrdered items.dropLast :=
          allOrdered_iff.mpr fun t ht => hitems t (List.dropLast_subset items ht)
        exact ih hdone (hinit.concat ⟨hlast, htimes times rfl⟩)
      | none => exact gives_leaf.bind fun tree htree => ih hdone (hitems.concat htree)

/-- A pattern that is read leaves nothing, and does not nest too deeply. -/
theorem read?_eq_some_iff {l : List Char} {t : Tree} :
    Tree.read? l = some t ↔
      ∃ s, StateT.run (branches (l.length + 1) [] []) { rest := l } = some (t, s) ∧ s.rest = [] ∧
        t.depth ≤ depthLimit := by
  constructor
  · intro h
    obtain ⟨⟨t', s⟩, hrun, hguard⟩ := Option.bind_eq_some_iff.mp h
    obtain ⟨_, hend, hpure⟩ := Option.bind_eq_some_iff.mp hguard
    cases hpure
    unfold guard at hend
    split at hend
    · next hboth => exact ⟨s, hrun, hboth⟩
    · cases hend
  · rintro ⟨s, hrun, hboth⟩
    refine Option.bind_eq_some_iff.mpr ⟨(t, s), hrun, Option.bind_eq_some_iff.mpr ⟨(), ?_, rfl⟩⟩
    exact if_pos hboth

theorem exists_run_of_read? {l : List Char} {t : Tree} (h : Tree.read? l = some t) :
    ∃ s, StateT.run (branches (l.length + 1) [] []) { rest := l } = some (t, s) ∧ s.rest = [] := by
  obtain ⟨s, hrun, hrest, -⟩ := read?_eq_some_iff.mp h
  exact ⟨s, hrun, hrest⟩

/-- No pattern asks for a repetition that cannot be made. -/
theorem Tree.ordered_of_read? {l : List Char} {t : Tree} (h : Tree.read? l = some t) : t.Ordered := by
  obtain ⟨s, hrun, -⟩ := exists_run_of_read? h
  have hnone : Tree.AllOrdered [] := trivial
  exact gives_branches (l.length + 1) hnone hnone _ _ _ hrun

/-! ### Depth -/

theorem Tree.depth_le_depths {u : Tree} {ts : List Tree} (h : u ∈ ts) : u.depth ≤ Tree.depths ts := by
  induction ts with
  | nil => cases h
  | cons t ts ih =>
    rw [Tree.depths]
    rcases List.mem_cons.mp h with rfl | hmem
    · exact Nat.le_max_left _ _
    · exact Nat.le_trans (ih hmem) (Nat.le_max_right _ _)

/-- Items are no deeper than what they make up. -/
theorem Tree.depth_le_ofItems {u : Tree} {ts : List Tree} (h : u ∈ ts) : u.depth ≤ (Tree.ofItems ts).depth := by
  fun_cases Tree.ofItems ts with
  | case1 => cases h
  | case2 t => rw [List.mem_singleton.mp h]
  | case3 => exact Nat.le_succ_of_le (Tree.depth_le_depths h)

theorem Tree.depth_le_ofBranches {u : Tree} {ts : List Tree} (h : u ∈ ts) :
    u.depth ≤ (Tree.ofBranches ts).depth := by
  fun_cases Tree.ofBranches ts with
  | case1 => cases h
  | case2 t => rw [List.mem_singleton.mp h]
  | case3 => exact Nat.le_succ_of_le (Tree.depth_le_depths h)

/-- What has been read nests no more deeply than what is read in the end. -/
theorem gives_branches_depth (fuel : Nat) (done items : List Tree) :
    Gives (branches fuel done items) fun tree => ∀ u ∈ done ++ items, u.depth ≤ tree.depth := by
  -- an item may be replaced by one that is at least as deep
  have hmore {done items items' : List Tree} {n : Nat} (hitems : ∀ u ∈ items, ∃ v ∈ items', u.depth ≤ v.depth)
      (h : Gives (branches n done items') fun tree => ∀ u ∈ done ++ items', u.depth ≤ tree.depth) :
      Gives (branches n done items') fun tree => ∀ u ∈ done ++ items, u.depth ≤ tree.depth := by
    intro s tree t hrun u hu
    have hle := h s tree t hrun
    rcases List.mem_append.mp hu with hdone | hitem
    · exact hle u (List.mem_append_left _ hdone)
    · obtain ⟨v, hv, huv⟩ := hitems u hitem
      exact Nat.le_trans huv (hle v (List.mem_append_right _ hv))
  have hconcat {items : List Tree} (tree : Tree) : ∀ u ∈ items, ∃ v ∈ items ++ [tree], u.depth ≤ v.depth :=
    fun u hu => ⟨u, List.mem_append_left _ hu, Nat.le_refl _⟩
  induction fuel generalizing done items with
  | zero => exact gives_failure
  | succ fuel ih =>
    rw [branches]
    have hend : ∀ u ∈ done ++ items, ∃ v ∈ done ++ [Tree.ofItems items], u.depth ≤ v.depth := by
      intro u hu
      rcases List.mem_append.mp hu with hdone | hitem
      · exact ⟨u, List.mem_append_left _ hdone, Nat.le_refl _⟩
      · exact ⟨_, List.mem_append_right _ (List.mem_singleton_self _), Tree.depth_le_ofItems hitem⟩
    have hclose : ∀ u ∈ done ++ items, u.depth ≤ (Tree.ofBranches (done ++ [Tree.ofItems items])).depth := by
      intro u hu
      obtain ⟨v, hv, huv⟩ := hend u hu
      exact Nat.le_trans huv (Tree.depth_le_ofBranches hv)
    refine gives_bind fun _ => gives_bind fun l => ?_
    split
    · exact gives_pure hclose
    · exact gives_pure hclose
    · refine gives_bind fun _ => ?_
      intro s tree t hrun u hu
      obtain ⟨v, hv, huv⟩ := hend u hu
      exact Nat.le_trans huv (ih _ [] s tree t hrun v (List.mem_append_left _ hv))
    · exact gives_bind fun tree => hmore (hconcat _) (ih done _)
    · refine gives_bind fun op => ?_
      cases op with
      | settings w => exact gives_bind fun _ => hmore (hconcat _) (ih done _)
      | group w =>
        refine gives_bind fun _ => gives_bind fun _ => gives_bind fun body => ?_
        exact gives_bind fun _ => gives_bind fun _ => hmore (hconcat _) (ih done _)
    · refine gives_bind fun times => ?_
      cases times with
      | some times =>
        refine (gives_ofOption _).bind fun body hbody => gives_bind fun _ => hmore ?_ (ih done _)
        intro u hu
        rw [← List.dropLast_append_getLast? body hbody] at hu
        rcases List.mem_append.mp hu with hinit | hlast
        · exact ⟨u, List.mem_append_left _ hinit, Nat.le_refl _⟩
        · rw [List.mem_singleton.mp hlast]
          exact ⟨_, List.mem_append_right _ (List.mem_singleton_self _), Nat.le_succ _⟩
      | none => exact gives_bind fun tree => hmore (hconcat _) (ih done _)

end GuidedDecoding.Pattern
