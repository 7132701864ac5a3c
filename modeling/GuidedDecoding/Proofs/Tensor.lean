import GuidedDecoding.Tensor
import Mathlib

/-!
# Entries of tensors

The elements of a tensor are listed in row-major order, and an index has one place in the list (`offset?`), so a tensor
is the table of its entries (`at?`).

Two tensors are joined along an axis exactly if they agree in everything else (`exists_join_iff`). An index of what they
are joined to falls into the first one, or, counted from its end, into the second one (`at?_join`). Joined one after
the other, tensors follow each other in this way, however many there are (`Concatenates.join`).
-/

namespace GuidedDecoding
namespace Tensor

variable {axis size k : ℕ} {dims front back index : List ℕ} {a b t t' : Tensor} {parts : List Tensor}

/-! ### Places of indices -/

/-- The place of an index among the elements, unless it is none of these dimensions. -/
def offset? : List ℕ → List ℕ → Option ℕ
  | [], [] => some 0
  | size :: dims, i :: index => if i < size then (offset? dims index).map (i * volume dims + ·) else none
  | _, _ => none

@[simp] theorem volume_nil : volume [] = 1 := rfl

@[simp] theorem volume_cons (size : ℕ) (dims : List ℕ) : volume (size :: dims) = size * volume dims := rfl

/-- The dimensions of blocks within blocks multiply. -/
theorem volume_append (front back : List ℕ) : volume (front ++ back) = volume front * volume back := by
  induction front with
  | nil => simp
  | cons size front ih => rw [List.cons_append, volume_cons, volume_cons, ih, mul_assoc]

/-- An index leads to an element that is there. -/
theorem offset?_lt (h : offset? dims index = some k) : k < volume dims := by
  induction dims generalizing index k with
  | nil =>
    cases index with
    | nil =>
      cases h
      exact one_pos
    | cons i index => cases h
  | cons size dims ih =>
    cases index with
    | nil => cases h
    | cons i index =>
      rw [offset?] at h
      split at h
      · next hi =>
        obtain ⟨j, hj, rfl⟩ := Option.map_eq_some_iff.mp h
        calc i * volume dims + j < i * volume dims + volume dims := by have := ih hj; omega
          _ = (i + 1) * volume dims := by ring
          _ ≤ size * volume dims := Nat.mul_le_mul_right _ hi
      · cases h

/-- An index has a component for each dimension. -/
theorem length_of_offset? (h : offset? dims index = some k) : index.length = dims.length := by
  induction dims generalizing index k with
  | nil =>
    cases index with
    | nil => rfl
    | cons i index => cases h
  | cons size dims ih =>
    cases index with
    | nil => cases h
    | cons i index =>
      rw [offset?] at h
      split at h
      · obtain ⟨j, hj, -⟩ := Option.map_eq_some_iff.mp h
        rw [List.length_cons, List.length_cons, ih hj]
      · cases h

/-- An index is cut where the dimensions are. -/
theorem offset?_append {first rest : List ℕ} (h : first.length = front.length) :
    offset? (front ++ back) (first ++ rest) =
      (offset? front first).bind fun o => (offset? back rest).map (o * volume back + ·) := by
  -- on the dimensions in front; the index has as many components for them
  induction front generalizing first with
  | nil =>
    rw [List.length_nil, List.length_eq_zero_iff] at h
    subst h
    cases hrest : offset? back rest <;> simp [offset?, hrest]
  | cons size front ih =>
    cases first with
    | nil => cases h
    | cons i first =>
      rw [List.cons_append, List.cons_append, offset?, offset?, ih (Nat.succ.inj h)]
      split
      · cases offset? front first with
        | none => rfl
        | some o =>
          cases offset? back rest with
          | none => rfl
          | some j =>
            simp only [Option.bind_some, Option.map_some, volume_append]
            congr 1
            ring
      · rfl

/-! ### Lists in pieces -/

theorem length_pieces {α : Type} (length count : ℕ) (xs : List α) : (pieces length count xs).length = count := by
  induction count generalizing xs with
  | zero => rfl
  | succ count ih => rw [pieces, List.length_cons, ih]

/-- The pieces of a list come at the multiples of their length. -/
theorem getElem?_pieces {α : Type} {length count o : ℕ} {xs : List α} (ho : o < count) :
    (pieces length count xs)[o]? = some ((xs.drop (o * length)).take length) := by
  induction count generalizing xs o with
  | zero => omega
  | succ count ih =>
    rw [pieces]
    cases o with
    | zero => simp
    | succ o =>
      rw [List.getElem?_cons_succ, ih (by omega), List.drop_drop]
      congr 3
      ring

/-- Behind each other, lists of one length have their elements at multiples of it. -/
theorem getElem?_flatten {α : Type} {width o r : ℕ} {xss : List (List α)} (h : ∀ xs ∈ xss, xs.length = width)
    (hr : r < width) : xss.flatten[o * width + r]? = xss[o]?.bind (·[r]?) := by
  induction xss generalizing o with
  | nil => simp
  | cons xs xss ih =>
    obtain ⟨hxs, hxss⟩ := List.forall_mem_cons.mp h
    rw [List.flatten_cons]
    cases o with
    | zero =>
      rw [zero_mul, zero_add, List.getElem?_append_left (by omega)]
      simp
    | succ o =>
      have hplace : (o + 1) * width + r = xs.length + (o * width + r) := by
        rw [hxs]
        ring
      rw [hplace, List.getElem?_append_right (by omega), Nat.add_sub_cancel_left, ih hxss]
      simp

/-- The pieces of two lists, each behind the one of the other list with the same number. -/
def interleave {α : Type} (count width width' : ℕ) (xs ys : List α) : List α :=
  ((pieces width count xs).zipWith (· ++ ·) (pieces width' count ys)).flatten

section Interleave

variable {α : Type} {count width width' o r : ℕ} {xs ys : List α}

theorem length_piece (h : xs.length = count * width) (ho : o < count) :
    ((xs.drop (o * width)).take width).length = width := by
  have hend : o * width + width ≤ count * width := by
    calc o * width + width = (o + 1) * width := by ring
      _ ≤ count * width := Nat.mul_le_mul_right _ ho
  rw [List.length_take, List.length_drop, h]
  omega

theorem getElem?_zipWith_pieces (ho : o < count) :
    ((pieces width count xs).zipWith (· ++ ·) (pieces width' count ys))[o]? =
      some ((xs.drop (o * width)).take width ++ (ys.drop (o * width')).take width') := by
  rw [List.getElem?_zipWith, getElem?_pieces ho, getElem?_pieces ho]

theorem length_of_mem_zipWith (hx : xs.length = count * width) (hy : ys.length = count * width') :
    ∀ zs ∈ (pieces width count xs).zipWith (· ++ ·) (pieces width' count ys), zs.length = width + width' := by
  intro zs hzs
  obtain ⟨o, hzs⟩ := List.mem_iff_getElem?.mp hzs
  have ho : o < count := by
    have hlt := (List.getElem?_eq_some_iff.mp hzs).1
    rw [List.length_zipWith, length_pieces, length_pieces] at hlt
    omega
  rw [getElem?_zipWith_pieces ho] at hzs
  cases hzs
  rw [List.length_append, length_piece hx ho, length_piece hy ho]

/-- Rows of both lists make longer rows. -/
theorem length_interleave (hx : xs.length = count * width) (hy : ys.length = count * width') :
    (interleave count width width' xs ys).length = count * (width + width') := by
  have hlengths := List.map_eq_replicate_iff.mpr (length_of_mem_zipWith hx hy)
  rw [interleave, List.length_flatten, hlengths, List.sum_replicate, List.length_zipWith, length_pieces, length_pieces,
    min_self, smul_eq_mul]

/-- In such a row the elements of the first list come first. -/
theorem getElem?_interleave (hx : xs.length = count * width) (hy : ys.length = count * width') (ho : o < count)
    (hr : r < width + width') :
    (interleave count width width' xs ys)[o * (width + width') + r]? =
      if r < width then xs[o * width + r]? else ys[o * width' + (r - width)]? := by
  rw [interleave, getElem?_flatten (length_of_mem_zipWith hx hy) hr, getElem?_zipWith_pieces ho, Option.bind_some]
  have hlength := length_piece hx ho
  split
  · next hlt =>
    rw [List.getElem?_append_left (by omega), List.getElem?_take_of_lt hlt, List.getElem?_drop]
  · next hge =>
    rw [List.getElem?_append_right (by omega), hlength, List.getElem?_take_of_lt (by omega), List.getElem?_drop]

end Interleave

/-! ### Entries -/

abbrev Entry := (kind : ElementKind) × kind.Element

def at? (t : Tensor) (index : List ℕ) : Option Entry :=
  (offset? t.dims index).bind fun k => (t.elements[k]?).map (⟨t.kind, ·⟩)

def IsFull (t : Tensor) : Prop := t.elements.length = volume t.dims

def sizeAlong (axis : ℕ) (t : Tensor) : ℕ := t.dims.getD axis 0

def along (axis : ℕ) (index : List ℕ) : ℕ := index.getD axis 0

theorem at?_of_length_ne (h : index.length ≠ t.dims.length) : t.at? index = none := by
  rw [at?]
  cases hk : offset? t.dims index with
  | none => rfl
  | some k => exact absurd (length_of_offset? hk) h

theorem along_append {first rest : List ℕ} (i : ℕ) (h : first.length = axis) : along axis (first ++ i :: rest) = i := by
  subst h
  simp [along]

theorem modify_append {first rest : List ℕ} (i : ℕ) (f : ℕ → ℕ) (h : first.length = axis) :
    (first ++ i :: rest).modify axis f = first ++ f i :: rest := by
  subst h
  induction first with
  | nil => rfl
  | cons j first ih => simp [List.modify_succ_cons, ih]

theorem exists_append_cons {l : List ℕ} (h : axis < l.length) :
    ∃ first i rest, l = first ++ i :: rest ∧ first.length = axis :=
  ⟨l.take axis, l[axis], l.drop (axis + 1), by simp, by simp; omega⟩

/-! ### Joining two tensors -/

/-- The tensors agree in everything but their sizes along an axis, which both have. -/
def Fits (axis : ℕ) (a b : Tensor) : Prop :=
  axis < a.dims.length ∧ b.dims.length = a.dims.length ∧ b.dims.eraseIdx axis = a.dims.eraseIdx axis ∧ b.kind = a.kind

instance (axis : ℕ) (a b : Tensor) : Decidable (Fits axis a b) := inferInstanceAs (Decidable (_ ∧ _ ∧ _ ∧ _))

/-- Tensors that do not fit are not joined. -/
theorem exists_error_of_not_fits (h : ¬ Fits axis a b) : ∃ e, a.join axis b = .error e := by
  unfold join
  unfold Fits at h
  split
  · exact ⟨_, rfl⟩
  · split
    · exact ⟨_, rfl⟩
    · split
      · exact ⟨_, rfl⟩
      · split
        · next h1 h2 h3 h4 =>
          exact absurd ⟨not_le.mp h1, (not_not.mp h2).symm, (not_not.mp h3).symm, h4⟩ h
        · exact ⟨_, rfl⟩

theorem eraseIdx_append_cons {front back : List ℕ} (d : ℕ) (h : front.length = axis) :
    (front ++ d :: back).eraseIdx axis = front ++ back := by
  subst h
  simp [List.eraseIdx_append_of_length_le]

/-- What tensors that fit are joined to. -/
theorem join_eq_ok {kind : ElementKind} {d d' : ℕ} {xs ys : List kind.Element} (h : front.length = axis) :
    join axis ⟨kind, front ++ d :: back, xs⟩ ⟨kind, front ++ d' :: back, ys⟩ =
      .ok ⟨kind, front ++ (d + d') :: back,
        interleave (volume front) (volume (d :: back)) (volume (d' :: back)) xs ys⟩ := by
  subst h
  have hrank : ¬ (front ++ d :: back).length ≤ front.length := by simp
  have hlength : ¬ (front ++ d :: back).length ≠ (front ++ d' :: back).length := by simp
  have hothers : ¬ (front ++ d :: back).eraseIdx front.length ≠ (front ++ d' :: back).eraseIdx front.length := by
    simp [eraseIdx_append_cons _ rfl]
  have hd : (front ++ d' :: back)[front.length]?.getD 0 = d' := by simp
  unfold join
  dsimp only
  rw [if_neg hrank, if_neg hlength, if_neg hothers, dif_pos rfl, modify_append d _ rfl, hd,
    List.take_left' rfl, List.drop_left' rfl, List.drop_left' rfl]
  rfl

/-- The place of an index that is cut at the axis. -/
theorem offset?_append_cons {first rest : List ℕ} {d i o j : ℕ} (h : first.length = front.length)
    (ho : offset? front first = some o) (hj : offset? back rest = some j) :
    offset? (front ++ d :: back) (first ++ i :: rest) =
      if i < d then some (o * volume (d :: back) + (i * volume back + j)) else none := by
  rw [offset?_append h, ho, offset?, hj]
  split <;> rfl

/-- In front of the axis and behind it an index must be one of the dimensions. -/
theorem offset?_append_cons_eq_none {first rest : List ℕ} {d i : ℕ} (h : first.length = front.length)
    (hnone : offset? front first = none ∨ offset? back rest = none) :
    offset? (front ++ d :: back) (first ++ i :: rest) = none := by
  rw [offset?_append h]
  rcases hnone with hfront | hback
  · rw [hfront]
    rfl
  · rw [offset?, hback]
    cases offset? front first with
    | none => rfl
    | some o => split <;> rfl

/-- The entries of what tensors that fit are joined to. -/
theorem at?_interleave {kind : ElementKind} {d d' i : ℕ} {xs ys : List kind.Element} {first rest : List ℕ}
    (hx : xs.length = volume front * volume (d :: back)) (hy : ys.length = volume front * volume (d' :: back))
    (h : first.length = front.length) :
    at? ⟨kind, front ++ (d + d') :: back,
        interleave (volume front) (volume (d :: back)) (volume (d' :: back)) xs ys⟩ (first ++ i :: rest) =
      if i < d then at? ⟨kind, front ++ d :: back, xs⟩ (first ++ i :: rest)
      else at? ⟨kind, front ++ d' :: back, ys⟩ (first ++ (i - d) :: rest) := by
  unfold at?
  dsimp only
  -- the components in front and behind are found or not found in all three tensors alike
  cases ho : offset? front first with
  | none =>
    rw [offset?_append_cons_eq_none h (Or.inl ho), offset?_append_cons_eq_none h (Or.inl ho),
      offset?_append_cons_eq_none h (Or.inl ho)]
    simp
  | some o =>
    cases hj : offset? back rest with
    | none =>
      rw [offset?_append_cons_eq_none h (Or.inr hj), offset?_append_cons_eq_none h (Or.inr hj),
        offset?_append_cons_eq_none h (Or.inr hj)]
      simp
    | some j =>
      have hlt := offset?_lt ho
      have hjlt := offset?_lt hj
      rw [offset?_append_cons h ho hj, offset?_append_cons h ho hj, offset?_append_cons h ho hj]
      have hwidth : volume ((d + d') :: back) = volume (d :: back) + volume (d' :: back) := by
        simp only [volume_cons]
        ring
      have hrow {i d : ℕ} (hi : i < d) : i * volume back + j < volume (d :: back) := by
        calc i * volume back + j < (i + 1) * volume back := by rw [Nat.add_mul, one_mul]; omega
          _ ≤ d * volume back := Nat.mul_le_mul_right _ hi
      rw [hwidth]
      -- Within its row the entry is one of the first tensor, or it stands as far behind that as in the
      -- second one.
      by_cases hi : i < d
      · rw [if_pos hi, if_pos (by omega), if_pos hi, Option.bind_some, Option.bind_some,
          getElem?_interleave hx hy hlt (by have := hrow hi; omega), if_pos (hrow hi)]
      · rw [if_neg hi]
        by_cases hi' : i < d + d'
        · -- The row is counted from the end of the first tensor.
          have hplace : i * volume back + j = volume (d :: back) + ((i - d) * volume back + j) := by
            obtain ⟨k, rfl⟩ := Nat.exists_eq_add_of_le (not_lt.mp hi)
            rw [Nat.add_sub_cancel_left, volume_cons]
            ring
          have hbehind := hrow (i := i - d) (d := d') (by omega)
          rw [if_pos hi', if_pos (by omega), Option.bind_some, Option.bind_some, hplace,
            getElem?_interleave hx hy hlt (by omega), if_neg (by omega), Nat.add_sub_cancel_left]
        · rw [if_neg hi', if_neg (by omega)]
          rfl

/-- Tensors that fit are joined, and what they are joined to is described by its entries. -/
theorem exists_join (h : Fits axis a b) (ha : a.IsFull) (hb : b.IsFull) :
    ∃ t, a.join axis b = .ok t ∧ t.kind = a.kind ∧ t.dims = a.dims.modify axis (· + sizeAlong axis b) ∧ t.IsFull ∧
      ∀ index, t.at? index =
        if along axis index < sizeAlong axis a then a.at? index
        else b.at? (index.modify axis (· - sizeAlong axis a)) := by
  obtain ⟨haxis, hlength, hothers, hkind⟩ := h
  obtain ⟨kind, dims, xs⟩ := a
  obtain ⟨kind', dims', ys⟩ := b
  dsimp only at *
  subst hkind
  obtain ⟨front, d, back, rfl, hfront⟩ := exists_append_cons haxis
  obtain ⟨front', d', back', rfl, hfront'⟩ := exists_append_cons (hlength ▸ haxis : axis < dims'.length)
  rw [eraseIdx_append_cons d hfront, eraseIdx_append_cons d' hfront'] at hothers
  obtain ⟨rfl, rfl⟩ := List.append_inj hothers (hfront'.trans hfront.symm)
  have hx : xs.length = volume front' * volume (d :: back') := by rw [← volume_append]; exact ha
  have hy : ys.length = volume front' * volume (d' :: back') := by rw [← volume_append]; exact hb
  have hsize {kind : ElementKind} {d : ℕ} {xs : List kind.Element} :
      sizeAlong axis ⟨kind, front' ++ d :: back', xs⟩ = d := along_append d hfront
  refine ⟨_, join_eq_ok hfront, rfl, ?_, ?_, ?_⟩
  · rw [hsize]
    exact (modify_append d (· + d') hfront).symm
  · show (interleave _ _ _ xs ys).length = volume (front' ++ (d + d') :: back')
    rw [length_interleave hx hy, volume_append]
    simp only [volume_cons]
    ring
  · intro index
    rw [hsize]
    -- an index with another number of components has no entry on either side
    by_cases hrank : index.length = (front' ++ d :: back').length
    · obtain ⟨first, i, rest, rfl, hfirst⟩ := exists_append_cons (hrank ▸ haxis : axis < index.length)
      rw [along_append i hfirst, modify_append i _ hfirst]
      exact at?_interleave hx hy (hfirst.trans hfront.symm)
    · have hrank' : index.length ≠ (front' ++ (d + d') :: back').length := by
        intro h
        apply hrank
        simpa using h
      have hrank'' : (index.modify axis (· - d)).length ≠ (front' ++ d' :: back').length := by
        intro h
        apply hrank
        simpa using h
      rw [at?_of_length_ne hrank', at?_of_length_ne hrank, at?_of_length_ne hrank'', ite_self]

/-! ### Tensors one after the other -/

/-- The entry at an index of tensors that follow each other along an axis: the index falls into one of them. -/
def entryOf? (axis : ℕ) : List Tensor → List ℕ → Option Entry
  | [], _ => none
  | t :: ts, index =>
    if along axis index < sizeAlong axis t then t.at? index
    else entryOf? axis ts (index.modify axis (· - sizeAlong axis t))

/-- The tensor is made of these, one after the other along an axis: it agrees with each of them in everything else, is
as long as all of them, and has their entries. -/
structure Concatenates (axis : ℕ) (parts : List Tensor) (t : Tensor) : Prop where
  axis_lt : axis < t.dims.length
  kind_eq : ∀ p ∈ parts, p.kind = t.kind
  length_eq : ∀ p ∈ parts, p.dims.length = t.dims.length
  others_eq : ∀ p ∈ parts, p.dims.eraseIdx axis = t.dims.eraseIdx axis
  size_eq : sizeAlong axis t = (parts.map (sizeAlong axis)).sum
  isFull : t.IsFull
  entry_eq : ∀ index, t.at? index = entryOf? axis parts index

/-- A shift of an index is a shift of its component. -/
theorem along_modify (axis : ℕ) (index : List ℕ) (n : ℕ) :
    along axis (index.modify axis (· - n)) = along axis index - n := by
  unfold along
  rw [List.getD_eq_getElem?_getD, List.getD_eq_getElem?_getD, List.getElem?_modify_eq]
  cases index[axis]? <;> simp

theorem modify_modify (axis : ℕ) (index : List ℕ) (m n : ℕ) :
    (index.modify axis (· - m)).modify axis (· - n) = index.modify axis (· - (m + n)) := by
  rw [List.modify_modify_eq]
  congr 1
  funext i
  exact Nat.sub_sub i m n

/-- An index that is beyond the end has no entry. -/
theorem at?_of_size_le {index : List ℕ} (h : axis < t.dims.length) (hindex : sizeAlong axis t ≤ along axis index) :
    t.at? index = none := by
  by_cases hrank : index.length = t.dims.length
  · obtain ⟨front, d, back, hdims, hfront⟩ := exists_append_cons h
    obtain ⟨first, i, rest, rfl, hfirst⟩ := exists_append_cons (hrank ▸ h : axis < index.length)
    have hd : sizeAlong axis t = d := by
      rw [sizeAlong, hdims]
      exact along_append d hfront
    rw [hd, along_append i hfirst] at hindex
    rw [at?, hdims, offset?_append (hfirst.trans hfront.symm), offset?, if_neg (not_lt.mpr hindex)]
    cases offset? front first <;> rfl
  · exact at?_of_length_ne hrank

theorem entryOf?_cons (t : Tensor) (parts : List Tensor) (index : List ℕ) :
    entryOf? axis (t :: parts) index =
      if along axis index < sizeAlong axis t then t.at? index
      else entryOf? axis parts (index.modify axis (· - sizeAlong axis t)) := rfl

/-- Behind all other parts an entry is one of the last one. -/
theorem entryOf?_concat (parts : List Tensor) (b : Tensor) (index : List ℕ) :
    entryOf? axis (parts ++ [b]) index =
      if along axis index < (parts.map (sizeAlong axis)).sum then entryOf? axis parts index
      else entryOf? axis [b] (index.modify axis (· - (parts.map (sizeAlong axis)).sum)) := by
  induction parts generalizing index with
  | nil =>
    have hzero : index.modify axis (· - 0) = index := List.modify_id axis index
    rw [List.map_nil, List.sum_nil, if_neg (Nat.not_lt_zero _), hzero]
    rfl
  | cons p parts ih =>
    rw [List.cons_append, entryOf?_cons, ih, along_modify, modify_modify, List.map_cons, List.sum_cons,
      entryOf?_cons p parts]
    by_cases hfirst : along axis index < sizeAlong axis p
    · rw [if_pos hfirst, if_pos (by omega), if_pos hfirst]
    · rw [if_neg hfirst, if_neg hfirst]
      by_cases hrest : along axis index < sizeAlong axis p + (parts.map (sizeAlong axis)).sum
      · rw [if_pos (by omega), if_pos hrest]
      · rw [if_neg (by omega), if_neg hrest]

theorem entryOf?_singleton {index : List ℕ} (h : axis < b.dims.length) : entryOf? axis [b] index = b.at? index := by
  rw [entryOf?_cons]
  split
  · rfl
  · next hend => exact (at?_of_size_le h (not_lt.mp hend)).symm

/-- A tensor is made of itself. -/
theorem concatenates_singleton (h : axis < t.dims.length) (ht : t.IsFull) : Concatenates axis [t] t where
  axis_lt := h
  kind_eq := by simp
  length_eq := by simp
  others_eq := by simp
  size_eq := by simp
  isFull := ht
  entry_eq := fun _ => (entryOf?_singleton h).symm

/-- What fits one of the parts fits what is made of them. -/
theorem Concatenates.fits_iff {p : Tensor} (h : Concatenates axis parts t) (hp : p ∈ parts) (b : Tensor) :
    Fits axis t b ↔ Fits axis p b := by
  unfold Fits
  rw [h.kind_eq p hp, h.length_eq p hp, h.others_eq p hp]

theorem sizeAlong_modify {dims : List ℕ} (h : axis < dims.length) (n : ℕ) :
    (dims.modify axis (· + n)).getD axis 0 = dims.getD axis 0 + n := by
  rw [List.getD_eq_getElem?_getD, List.getD_eq_getElem?_getD, List.getElem?_modify_eq, List.getElem?_eq_getElem h]
  rfl

/-- One more tensor that fits comes behind the others. -/
theorem Concatenates.join (h : Concatenates axis parts t) (hfits : Fits axis t b) (hb : b.IsFull) :
    ∃ t', t.join axis b = .ok t' ∧ Concatenates axis (parts ++ [b]) t' := by
  obtain ⟨t', hjoin, hkind, hdims, hfull, hentry⟩ := exists_join hfits h.isFull hb
  obtain ⟨haxis, hlength, hothers, hkind'⟩ := hfits
  have hrank : t'.dims.length = t.dims.length := by simp [hdims]
  have herase : t'.dims.eraseIdx axis = t.dims.eraseIdx axis := by
    obtain ⟨front, d, back, hsplit, hfront⟩ := exists_append_cons haxis
    rw [hdims, hsplit, modify_append d _ hfront, eraseIdx_append_cons _ hfront, eraseIdx_append_cons _ hfront]
  refine ⟨t', hjoin, ?_⟩
  refine
    { axis_lt := hrank ▸ haxis
      kind_eq := ?_
      length_eq := ?_
      others_eq := ?_
      size_eq := ?_
      isFull := hfull
      entry_eq := ?_ }
  · intro p hp
    rcases List.mem_append.mp hp with hp | hp
    · exact (h.kind_eq p hp).trans hkind.symm
    · obtain rfl := List.mem_singleton.mp hp
      exact hkind'.trans hkind.symm
  · intro p hp
    rcases List.mem_append.mp hp with hp | hp
    · exact (h.length_eq p hp).trans hrank.symm
    · obtain rfl := List.mem_singleton.mp hp
      exact hlength.trans hrank.symm
  · intro p hp
    rcases List.mem_append.mp hp with hp | hp
    · exact (h.others_eq p hp).trans herase.symm
    · obtain rfl := List.mem_singleton.mp hp
      exact hothers.trans herase.symm
  · have hsize : sizeAlong axis t' = sizeAlong axis t + sizeAlong axis b := by
      rw [sizeAlong, hdims]
      exact sizeAlong_modify haxis _
    rw [hsize, h.size_eq]
    simp
  · intro index
    rw [hentry, entryOf?_concat, ← h.size_eq, ← h.entry_eq, entryOf?_singleton (hlength ▸ haxis)]

end Tensor
end GuidedDecoding
