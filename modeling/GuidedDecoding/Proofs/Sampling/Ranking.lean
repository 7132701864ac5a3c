import GuidedDecoding.Proofs.Number.Order
import GuidedDecoding.Sampling

/-!
# The ranking of shares

The places of the shares that can be drawn stand in one order: a greater share comes first, and of equal shares the
first one (`Ranks`, `Ranks.unique`). `ranked` sorts by the shares alone, and it is a stable sort of places that ascend
(`pairwise_mergeSort`), so it gives the candidates of those places in that order (`exists_ranks`).

Places are natural numbers here, since a token is a word and the words of many places repeat.
-/

namespace GuidedDecoding
namespace Sampling

open Single

variable {shares : List Float32} {places : List ℕ} {x y : Float32} {i j : ℕ}

def share (shares : List Float32) (i : ℕ) : Float32 := shares[i]?.getD 0

def entry (shares : List Float32) (i : ℕ) : Candidate := ⟨i.toUInt32, share shares i⟩

def Drawable (x : Float32) : Prop := 0 < x ∧ x.isFinite = true

instance (x : Float32) : Decidable (Drawable x) := inferInstanceAs (Decidable (_ ∧ _))

/-- The one place comes before the other: it has a greater share, or the same one and it is the first. -/
def Precedes (shares : List Float32) (i j : ℕ) : Prop :=
  share shares j < share shares i ∨ share shares i = share shares j ∧ i < j

instance (shares : List Float32) (i j : ℕ) : Decidable (Precedes shares i j) := inferInstanceAs (Decidable (_ ∨ _))

/-- These are the places of the shares that can be drawn, in their order. -/
structure Ranks (shares : List Float32) (places : List ℕ) : Prop where
  mem_iff : ∀ i, i ∈ places ↔ ∃ x, shares[i]? = some x ∧ Drawable x
  ordered : places.Pairwise (Precedes shares)

/-! ### What a share is worth -/

/-- The number that a finite single is. -/
def worth (x : Float32) : ℚ := (rational? (exactValue x)).getD 0

theorem rational?_of_isFinite (h : x.isFinite = true) : rational? (exactValue x) = some (worth x) := by
  obtain ⟨q, hq⟩ := isFinite_iff.mp h
  rw [worth, hq]
  rfl

theorem le_iff_worth (hx : x.isFinite = true) (hy : y.isFinite = true) : x ≤ y ↔ worth x ≤ worth y :=
  le_iff_of_rational (rational?_of_isFinite hx) (rational?_of_isFinite hy)

/-- Finite shares are ordered by the numbers that they are. -/
theorem lt_iff_worth (hx : x.isFinite = true) (hy : y.isFinite = true) : x < y ↔ worth x < worth y :=
  lt_iff_of_rational (rational?_of_isFinite hx) (rational?_of_isFinite hy)

theorem Drawable.worth_pos (h : Drawable x) : 0 < worth x :=
  (lt_iff_of_rational rfl (rational?_of_isFinite h.2)).mp h.1

/-- Shares that can be drawn and are worth the same are the same. -/
theorem Drawable.eq_of_worth (hx : Drawable x) (hy : Drawable y) (h : worth x = worth y) : x = y := by
  apply eq_of_rational (rational?_of_isFinite hx.2) ?_ hx.worth_pos.ne'
  rw [h]
  exact rational?_of_isFinite hy.2

theorem share_of_getElem? (h : shares[i]? = some x) : share shares i = x := by
  rw [share, h]
  rfl

/-- A place has a share that can be drawn if there is one at it. -/
theorem drawable_share_iff : Drawable (share shares i) ↔ ∃ x, shares[i]? = some x ∧ Drawable x := by
  cases h : shares[i]? with
  | none =>
    have hzero : ¬ Drawable (share shares i) := by
      rw [share, h]
      exact fun hdrawable => absurd hdrawable.worth_pos (lt_irrefl 0)
    simpa using hzero
  | some x => simp [share, h]

theorem Ranks.drawable (h : Ranks shares places) (hi : i ∈ places) : Drawable (share shares i) :=
  drawable_share_iff.mpr ((h.mem_iff i).mp hi)

/-! ### There is one order -/

/-- Of two places the one with the greater share comes first, and of equal shares the first place. -/
theorem precedes_iff (hi : Drawable (share shares i)) (hj : Drawable (share shares j)) :
    Precedes shares i j ↔ worth (share shares j) < worth (share shares i) ∨
      worth (share shares i) = worth (share shares j) ∧ i < j := by
  rw [Precedes, lt_iff_worth hj.2 hi.2]
  have hsame : share shares i = share shares j ↔ worth (share shares i) = worth (share shares j) :=
    ⟨congrArg worth, hi.eq_of_worth hj⟩
  rw [hsame]

/-- No place is ranked twice. -/
theorem Ranks.nodup (h : Ranks shares places) : places.Nodup := by
  apply List.Pairwise.imp_of_mem ?_ h.ordered
  intro i j hi hj hprecedes
  rw [precedes_iff (h.drawable hi) (h.drawable hj)] at hprecedes
  rintro rfl
  simp at hprecedes

/-- There is one such list of places. -/
theorem Ranks.unique {others : List ℕ} (h : Ranks shares places) (hothers : Ranks shares others) : others = places := by
  refine List.Perm.eq_of_pairwise ?_ hothers.ordered h.ordered ?_
  · intro i j hi hj hij hji
    rw [precedes_iff (hothers.drawable hi) (h.drawable hj)] at hij
    rw [precedes_iff (h.drawable hj) (hothers.drawable hi)] at hji
    exfalso
    rcases hij with hij | ⟨hsame, hij⟩
    · rcases hji with hji | ⟨hsame, -⟩
      · exact lt_asymm hij hji
      · exact hij.ne hsame
    · rcases hji with hji | ⟨-, hji⟩
      · exact hji.ne hsame
      · exact lt_asymm hij hji
  · rw [List.perm_ext_iff_of_nodup hothers.nodup h.nodup]
    intro i
    rw [hothers.mem_iff, h.mem_iff]

/-! ### A stable sort -/

/-- Two members of a list without repetitions stand in one order. -/
theorem not_sublist_swap {l : List ℕ} (hnodup : l.Nodup) (h : [i, j].Sublist l) : ¬ [j, i].Sublist l := by
  induction l with
  | nil => cases h
  | cons a l ih =>
    obtain ⟨ha, hl⟩ := List.nodup_cons.mp hnodup
    rw [List.cons_sublist_cons', List.singleton_sublist] at h ⊢
    rintro (hswap | ⟨rfl, hswap⟩)
    · rcases h with h | ⟨rfl, -⟩
      · exact ih hl h hswap
      · exact ha (hswap.subset (by simp))
    · rcases h with h | ⟨rfl, h⟩
      · exact ha (h.subset (by simp))
      · exact ha h

/-- Places that ascend are sorted by a key so that equal ones ascend again. -/
theorem pairwise_mergeSort (key : ℕ → ℚ) {l : List ℕ} (h : l.Pairwise (· < ·)) :
    (l.mergeSort fun i j => decide (key j ≤ key i)).Pairwise fun i j => key j < key i ∨ key i = key j ∧ i < j := by
  have htrans (i j k : ℕ) (hij : decide (key j ≤ key i) = true) (hjk : decide (key k ≤ key j) = true) :
      decide (key k ≤ key i) = true := by
    rw [decide_eq_true_eq] at hij hjk ⊢
    exact hjk.trans hij
  have htotal (i j : ℕ) : (decide (key j ≤ key i) || decide (key i ≤ key j)) = true := by
    simpa using le_total (key j) (key i)
  have hperm := List.mergeSort_perm l fun i j => decide (key j ≤ key i)
  have hnodup : (l.mergeSort fun i j => decide (key j ≤ key i)).Nodup :=
    hperm.nodup_iff.mpr (h.imp fun hlt => hlt.ne)
  have hsorted := List.pairwise_mergeSort htrans htotal l
  rw [List.pairwise_iff_forall_sublist] at hsorted ⊢
  intro i j hij
  have hle : key j ≤ key i := of_decide_eq_true (hsorted hij)
  rcases hle.lt_or_eq with hlt | heq
  · exact Or.inl hlt
  · refine Or.inr ⟨heq.symm, ?_⟩
    by_contra! hji
    -- The later place stands before the other one in the list, and so it would after the sort.
    have hlt : j < i := by
      apply lt_of_le_of_ne hji
      rintro rfl
      exact List.nodup_iff_sublist.mp hnodup j hij
    have hmem : [j, i] ⊆ l := fun k hk => hperm.mem_iff.mp (hij.subset (by simpa [or_comm] using hk))
    have hbefore : [j, i].Sublist l :=
      List.sublist_of_subperm_of_pairwise (List.subperm_of_subset (by simpa using hlt.ne) hmem) (by simpa using hlt) h
    exact not_sublist_swap hnodup hij
      (List.pair_sublist_mergeSort htrans htotal (decide_eq_true heq.ge) hbefore)

/-! ### The sort of the candidates -/

def rankedPlaces (shares : List Float32) : List ℕ :=
  ((List.range shares.length).filter fun i => 0 < share shares i && (share shares i).isFinite).mergeSort
    fun i j => decide (share shares j ≤ share shares i)

/-- The candidates are the entries of the ranked places. -/
theorem ranked_eq (shares : List Float32) : ranked shares = (rankedPlaces shares).map (entry shares) := by
  have hall : shares.mapIdx (fun i x => Candidate.mk i.toUInt32 x) = (List.range shares.length).map (entry shares) := by
    apply List.ext_getElem
    · simp
    · intro i hi hi'
      have hlt : i < shares.length := by simpa using hi
      simp [entry, share, hlt]
  rw [ranked, rankedPlaces, hall, List.filter_map]
  symm
  apply List.map_mergeSort
  intro i _ j _
  rfl

/-- The ranked places are those whose share can be drawn. -/
theorem mem_rankedPlaces : i ∈ rankedPlaces shares ↔ ∃ x, shares[i]? = some x ∧ Drawable x := by
  rw [rankedPlaces, List.mem_mergeSort, List.mem_filter, List.mem_range, Bool.and_eq_true, decide_eq_true_eq]
  constructor
  · rintro ⟨-, hdrawable⟩
    exact drawable_share_iff.mp hdrawable
  · intro h
    have hdrawable : Drawable (share shares i) := drawable_share_iff.mpr h
    obtain ⟨x, hx, -⟩ := h
    exact ⟨(List.getElem?_eq_some_iff.mp hx).1, hdrawable⟩

/-- Sorting brings them into their order. -/
theorem ranks_rankedPlaces (shares : List Float32) : Ranks shares (rankedPlaces shares) := by
  refine ⟨fun i => mem_rankedPlaces, ?_⟩
  have hdrawable {i : ℕ} (hi : i ∈ rankedPlaces shares) : Drawable (share shares i) :=
    drawable_share_iff.mpr (mem_rankedPlaces.mp hi)
  have hkey : rankedPlaces shares =
      ((List.range shares.length).filter fun i => 0 < share shares i && (share shares i).isFinite).mergeSort
        fun i j => decide (worth (share shares j) ≤ worth (share shares i)) := by
    rw [rankedPlaces, ← List.map_id (List.mergeSort _ _), List.map_mergeSort, List.map_id]
    intro i hi j hj
    rw [List.mem_filter, Bool.and_eq_true] at hi hj
    rw [id, id, decide_eq_decide, le_iff_worth hj.2.2 hi.2.2]
  have hascending : ((List.range shares.length).filter fun i =>
      0 < share shares i && (share shares i).isFinite).Pairwise (· < ·) :=
    List.Pairwise.filter _ List.pairwise_lt_range
  have hsorted := pairwise_mergeSort (fun i => worth (share shares i)) hascending
  rw [← hkey] at hsorted
  apply List.Pairwise.imp_of_mem ?_ hsorted
  intro i j hi hj hij
  exact (precedes_iff (hdrawable hi) (hdrawable hj)).mpr hij

end Sampling
end GuidedDecoding
