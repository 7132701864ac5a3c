/-!
# Sets of characters

A set of code points is kept as the ascending list of the points at which membership changes: a point
is in the set when the number of edges at or below it is odd. The Boolean operations are one walk over
the merged edges of both sets.
-/

namespace GuidedDecoding

/-- A set of code points, given by the points at which membership changes. -/
structure CharSet where
  edges : List Nat
  ascending : edges.Pairwise (· ≤ ·)
  deriving DecidableEq

namespace CharSet

/-- Whether a point is in the set of these edges, when all points below the first edge are or are not. -/
def inside : Bool → List Nat → Nat → Bool
  | now, [], _ => now
  | now, e :: rest, n => if n < e then now else inside (!now) rest n

def contains (s : CharSet) (n : Nat) : Bool := inside false s.edges n

instance : Membership Char CharSet := ⟨fun s c => s.contains c.toNat = true⟩

instance (c : Char) (s : CharSet) : Decidable (c ∈ s) :=
  inferInstanceAs (Decidable (s.contains c.toNat = true))

/-- Whether some code point from `low` to `high` is in the set. Two edges at one point change nothing, so the
points behind an edge need not be in it. -/
def meets (s : CharSet) (low high : Nat) : Bool :=
  s.contains low || s.edges.any fun e => low < e && e ≤ high && s.contains e

/-- The set whose membership changes at each of these points. -/
def ofEdges (points : List Nat) : CharSet where
  edges := points.mergeSort fun a b => decide (a ≤ b)
  ascending := by
    have trans (a b c : Nat) (h : decide (a ≤ b) = true) (h' : decide (b ≤ c) = true) :
        decide (a ≤ c) = true := by simp at *; omega
    have total (a b : Nat) : (decide (a ≤ b) || decide (b ≤ a)) = true := by simp; omega
    simpa using List.pairwise_mergeSort trans total points

/-- The union of ranges, ends included, of which no two share a point. -/
def ofDisjoint (ranges : List (Nat × Nat)) : CharSet :=
  ofEdges (ranges.flatMap fun (low, high) => [low, high + 1])

/-- The points from `low` to `high`, ends included. -/
def range (low high : Nat) : CharSet := ofDisjoint [(low, high)]

def singleton (c : Char) : CharSet := range c.toNat c.toNat

def empty : CharSet := ⟨[], List.Pairwise.nil⟩

instance : Inhabited CharSet := ⟨empty⟩

/-- All characters: every code point but the surrogates. -/
def scalars : CharSet := ofDisjoint [(0, 0xD7FF), (0xE000, 0x10FFFF)]

def ascii : CharSet := range 0 0x7F

/-! ### Boolean operations -/

/-- The edges of two sets in ascending order, each with whether it is of the second set. -/
def events (s t : CharSet) : List (Nat × Bool) :=
  (s.edges.map (·, false)).merge (t.edges.map (·, true)) fun a b => decide (a.1 ≤ b.1)

/-- The edges at which the value of `op` on both memberships changes. -/
def changes (op : Bool → Bool → Bool) (a b : Bool) : List (Nat × Bool) → List Nat
  | [] => []
  | (e, second) :: rest =>
    let a' := if second then a else !a
    let b' := if second then !b else b
    if op a' b' = op a b then changes op a' b' rest else e :: changes op a' b' rest

theorem changes_sublist (op : Bool → Bool → Bool) (events : List (Nat × Bool)) (a b : Bool) :
    (changes op a b events).Sublist (events.map Prod.fst) := by
  induction events generalizing a b with
  | nil => exact List.Sublist.refl _
  | cons event rest ih =>
    obtain ⟨e, second⟩ := event
    rw [changes, List.map_cons]
    dsimp only
    by_cases h : op (if second then a else !a) (if second then !b else b) = op a b
    · rw [if_pos h]
      exact (ih _ _).cons _
    · rw [if_neg h]
      exact (ih _ _).cons_cons _

theorem events_ascending (s t : CharSet) : ((events s t).map Prod.fst).Pairwise (· ≤ ·) := by
  have trans (a b c : Nat × Bool) (h : decide (a.1 ≤ b.1) = true) (h' : decide (b.1 ≤ c.1) = true) :
      decide (a.1 ≤ c.1) = true := by simp at *; omega
  have total (a b : Nat × Bool) : (decide (a.1 ≤ b.1) || decide (b.1 ≤ a.1)) = true := by
    simp; omega
  have tagged (u : CharSet) (tag : Bool) :
      (u.edges.map (·, tag)).Pairwise fun a b => decide (a.1 ≤ b.1) = true := by
    rw [List.pairwise_map]
    simpa using u.ascending
  rw [List.pairwise_map]
  simpa [events] using List.pairwise_merge trans total _ _ (tagged s false) (tagged t true)

/-- The points at which `op` holds of both memberships; `op` is to hold of no point in neither set. -/
def combine (op : Bool → Bool → Bool) (s t : CharSet) : CharSet where
  edges := changes op false false (events s t)
  ascending := (events_ascending s t).sublist (changes_sublist op _ _ _)

def union : CharSet → CharSet → CharSet := combine or

def inter : CharSet → CharSet → CharSet := combine and

def diff : CharSet → CharSet → CharSet := combine fun a b => a && !b

def symmDiff : CharSet → CharSet → CharSet := combine xor

instance : Union CharSet := ⟨union⟩
instance : Inter CharSet := ⟨inter⟩
instance : SDiff CharSet := ⟨diff⟩

/-- The characters that are not in the set. -/
def compl (s : CharSet) : CharSet := scalars \ s

def unions (sets : List CharSet) : CharSet := sets.foldl (· ∪ ·) empty

/-! ### Sets in writing -/

def hexDigit? (c : Char) : Option Nat :=
  if '0' ≤ c ∧ c ≤ '9' then some (c.toNat - '0'.toNat)
  else if 'a' ≤ c ∧ c ≤ 'f' then some (c.toNat - 'a'.toNat + 10)
  else if 'A' ≤ c ∧ c ≤ 'F' then some (c.toNat - 'A'.toNat + 10)
  else none

/-- Reads hexadecimal points and ranges such as `41-5A 5F`; `low` is the start of an open range and
`point` the number read so far. -/
def rangesOf (low : Option Nat) (point : Nat) : List Char → List (Nat × Nat)
  | [] => [(low.getD point, point)]
  | ' ' :: rest => (low.getD point, point) :: rangesOf none 0 rest
  -- The range is completed by the point behind the hyphen.
  | '-' :: rest => rangesOf (some point) 0 rest
  | c :: rest => rangesOf low (point * 16 + (hexDigit? c).getD 0) rest

/-- The union of the disjoint points and ranges that these lines list in hexadecimal, separated by
blanks. -/
def ofLines (lines : List String) : CharSet :=
  ofDisjoint (lines.flatMap fun line => rangesOf none 0 line.toList)

end CharSet

end GuidedDecoding
