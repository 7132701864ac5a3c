import GuidedDecoding.Json.Value
import Mathlib

/-!
# The members of an object

Of entries with one key the last one counts (`lastOf?`), and so it is when a key is looked up among the members of an
object (`member?_eq`). Sorting does not change what is found (`member?_sortMembers`), because members of one key keep
their order, and leaves each key once (`pairwise_sortMembers`). So the sorted members are exactly what can be looked
up (`mem_sortMembers_iff`), and members in which the same is found are the same when they are sorted
(`sortMembers_eq_filter`).
-/

namespace GuidedDecoding

/-! ### Entries with keys -/

section Keyed

variable {κ α : Type} [DecidableEq κ] {k : κ} {v : α} {xs ys : List (κ × α)}

def lastOf? (k : κ) (entries : List (κ × α)) : Option α := ((entries.filter (·.1 == k)).getLast?).map (·.2)

/-- The last entry of two lists is that of the second one, if it has one. -/
theorem lastOf?_append : lastOf? k (xs ++ ys) = (lastOf? k ys).or (lastOf? k xs) := by
  rw [lastOf?, List.filter_append, List.getLast?_append, Option.map_or]
  rfl

theorem lastOf?_singleton (e : κ × α) : lastOf? k [e] = if e.1 = k then some e.2 else none := by
  by_cases h : e.1 = k <;> simp [lastOf?, h]

theorem lastOf?_cons (e : κ × α) (entries : List (κ × α)) :
    lastOf? k (e :: entries) = (lastOf? k entries).or (if e.1 = k then some e.2 else none) := by
  rw [← List.singleton_append, lastOf?_append, lastOf?_singleton]

theorem mem_of_lastOf? (h : lastOf? k xs = some v) : (k, v) ∈ xs := by
  rw [lastOf?, Option.map_eq_some_iff] at h
  obtain ⟨e, he, rfl⟩ := h
  have hmem := List.mem_filter.mp (List.mem_of_getLast? he)
  have hkey : e.1 = k := by simpa using hmem.2
  rw [← hkey]
  exact hmem.1

theorem lastOf?_eq_none_iff : lastOf? k xs = none ↔ ∀ e ∈ xs, e.1 ≠ k := by
  rw [lastOf?, Option.map_eq_none_iff, List.getLast?_eq_none_iff, List.filter_eq_nil_iff]
  simp only [beq_iff_eq, ne_eq]

/-- Where no key is there twice, each entry counts. -/
theorem lastOf?_eq_some_iff_mem (h : xs.Pairwise fun a b => a.1 ≠ b.1) : lastOf? k xs = some v ↔ (k, v) ∈ xs := by
  refine ⟨mem_of_lastOf?, fun hmem => ?_⟩
  induction xs with
  | nil => cases hmem
  | cons e xs ih =>
    rw [List.pairwise_cons] at h
    rw [lastOf?_cons]
    rcases List.mem_cons.mp hmem with rfl | hrest
    · have hnone : lastOf? k xs = none := lastOf?_eq_none_iff.mpr fun e he => (h.1 e he).symm
      rw [hnone, if_pos rfl]
      rfl
    · rw [ih h.2 hrest]
      rfl

end Keyed

namespace Json.Value

variable {α : Type} {k : String} {v : α} {members members' : List (String × α)}

/-- The value that a key has is that of its last member. -/
theorem member?_eq (k : String) (members : List (String × α)) : member? k members = lastOf? k members := by
  rw [member?, lastOf?, ← List.head?_filter, List.filter_reverse, List.head?_reverse]

/-! ### Sorting -/

theorem sortOrder_iff {a b : String × α} : (!decide (b.1 < a.1)) = true ↔ a.1 ≤ b.1 := by
  rw [Bool.not_eq_true', decide_eq_false_iff_not, not_lt]

theorem sortOrder_trans (a b c : String × α) (hab : (!decide (b.1 < a.1)) = true) (hbc : (!decide (c.1 < b.1)) = true) :
    (!decide (c.1 < a.1)) = true := by
  rw [sortOrder_iff] at hab hbc ⊢
  exact hab.trans hbc

theorem sortOrder_total (a b : String × α) : (!decide (b.1 < a.1) || !decide (a.1 < b.1)) = true := by
  rw [Bool.or_eq_true, sortOrder_iff, sortOrder_iff]
  exact le_total a.1 b.1

/-- Sorting puts the keys in order. -/
theorem pairwise_mergeSort_keys (members : List (String × α)) :
    (members.mergeSort fun a b => !decide (b.1 < a.1)).Pairwise fun a b => a.1 ≤ b.1 :=
  (List.pairwise_mergeSort sortOrder_trans sortOrder_total members).imp sortOrder_iff.mp

/-- Members of one key keep their order. -/
theorem filter_mergeSort (k : String) (members : List (String × α)) :
    (members.mergeSort fun a b => !decide (b.1 < a.1)).filter (·.1 == k) = members.filter (·.1 == k) := by
  have hordered : (members.filter (·.1 == k)).Pairwise fun a b => (!decide (b.1 < a.1)) = true := by
    rw [List.pairwise_filter]
    refine List.pairwise_of_forall fun a b hka hkb => ?_
    have hsame : a.1 = b.1 := (beq_iff_eq.mp hka).trans (beq_iff_eq.mp hkb).symm
    exact sortOrder_iff.mpr hsame.le
  -- In order already, they are there in this order after sorting, and there are no others.
  have hsublist := (List.sublist_mergeSort sortOrder_trans sortOrder_total hordered List.filter_sublist).filter
    (·.1 == k)
  rw [List.filter_filter] at hsublist
  simp only [Bool.and_self] at hsublist
  have hlength := ((List.mergeSort_perm members fun a b => !decide (b.1 < a.1)).filter (·.1 == k)).length_eq
  exact (hsublist.eq_of_length hlength.symm).symm

theorem lastOfRuns_sublist (members : List (String × α)) : (lastOfRuns members).Sublist members := by
  fun_induction lastOfRuns members with
  | case1 a b rest _ ih => exact ih.trans (List.sublist_cons_self a _)
  | case2 a b rest _ ih => exact ih.cons_cons a
  | case3 rest => exact List.Sublist.refl rest

/-- Leaving out entries that are followed by one of their key does not change the last ones. -/
theorem lastOf?_lastOfRuns (members : List (String × α)) : lastOf? k (lastOfRuns members) = lastOf? k members := by
  fun_induction lastOfRuns members with
  | case1 a b rest hsame ih =>
    -- Whenever `a` has the key, so does `b`, and `b` comes later.
    have hab : a.1 = b.1 := beq_iff_eq.mp hsame
    rw [ih, lastOf?_cons a, lastOf?_cons b, hab]
    by_cases hb : b.1 = k
    · rw [if_pos hb, if_pos hb, Option.or_assoc]
      rfl
    · rw [if_neg hb, if_neg hb, Option.or_none, Option.or_none]
  | case2 a b rest _ ih => rw [lastOf?_cons a, ih, ← lastOf?_cons a]
  | case3 rest => rfl

/-- In a sorted list each key is left once. -/
theorem pairwise_lastOfRuns (h : members.Pairwise fun a b => a.1 ≤ b.1) :
    (lastOfRuns members).Pairwise fun a b => a.1 < b.1 := by
  fun_induction lastOfRuns members with
  | case1 a b rest _ ih => exact ih (List.pairwise_cons.mp h).2
  | case2 a b rest hne ih =>
    rw [List.pairwise_cons] at h
    refine List.pairwise_cons.mpr ⟨fun c hc => ?_, ih h.2⟩
    have hab : a.1 < b.1 := lt_of_le_of_ne (h.1 b List.mem_cons_self) (by simpa using hne)
    rcases List.mem_cons.mp ((lastOfRuns_sublist (b :: rest)).mem hc) with rfl | hrest
    · exact hab
    · exact hab.trans_le ((List.pairwise_cons.mp h.2).1 c hrest)
  | case3 rest hshort =>
    match rest, hshort with
    | [], _ => exact List.Pairwise.nil
    | [a], _ => exact List.pairwise_singleton _ a
    | a :: b :: rest, hshort => exact absurd rfl (hshort a b rest)

/-- Sorting does not change what is found. -/
theorem member?_sortMembers (k : String) (members : List (String × α)) :
    member? k (sortMembers members) = member? k members := by
  rw [member?_eq, member?_eq, sortMembers, lastOf?_lastOfRuns, lastOf?, filter_mergeSort, lastOf?]

/-- The keys are in order, each once. -/
theorem pairwise_sortMembers (members : List (String × α)) :
    (sortMembers members).Pairwise fun a b => a.1 < b.1 :=
  pairwise_lastOfRuns (pairwise_mergeSort_keys members)

/-- The sorted members are what is found. -/
theorem mem_sortMembers_iff : (k, v) ∈ sortMembers members ↔ member? k members = some v := by
  have hkeys : (sortMembers members).Pairwise fun a b => a.1 ≠ b.1 := (pairwise_sortMembers members).imp ne_of_lt
  rw [← member?_sortMembers, member?_eq, lastOf?_eq_some_iff_mem hkeys]

/-- Members in which the same is found are the same when they are sorted, apart from those with a key that is left
out. -/
theorem sortMembers_eq_filter {p : String → Bool}
    (h : ∀ k, member? k members' = if p k then member? k members else none) :
    sortMembers members' = (sortMembers members).filter (p ·.1) := by
  have hirrefl : Std.Irrefl fun a b : String × α => a.1 < b.1 := ⟨fun a => lt_irrefl a.1⟩
  have hantisymm : Std.Antisymm fun a b : String × α => a.1 < b.1 := ⟨fun _ _ hab hba => absurd hba hab.asymm⟩
  refine (pairwise_sortMembers members').eq_of_mem_iff ((pairwise_sortMembers members).filter _) ?_
  rintro ⟨k, v⟩
  rw [List.mem_filter, mem_sortMembers_iff, mem_sortMembers_iff, h]
  cases p k <;> simp

end Json.Value

end GuidedDecoding
