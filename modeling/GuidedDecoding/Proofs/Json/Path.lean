import GuidedDecoding.Proofs.Json.Value

/-!
# Where values stand among the tokens of a document

No spelling of a value is the beginning of that of another one (`Value.spelling_append_inj`). A path leads to
a value within a value, and `Value.at?` tells how many tokens come before it. So two documents that begin
with the same tokens hold the same values as far as these tokens go (`Value.at?_of_agree`).
-/

namespace GuidedDecoding.Json

/-! ### Beginnings of lists -/

section Take

variable {α : Type} {x p q l : List α} {k : Nat}

theorem isPrefix_of_take_eq (h : (x ++ p).take k = l.take k) (hk : x.length ≤ k) : x <+: l := by
  have hx : x = l.take x.length := by
    calc x = (x ++ p).take x.length := by rw [List.take_left]
      _ = ((x ++ p).take k).take x.length := by rw [List.take_take, Nat.min_eq_left hk]
      _ = l.take x.length := by rw [h, List.take_take, Nat.min_eq_left hk]
  rw [hx]
  exact List.take_prefix _ _

theorem take_append_cancel (h : (x ++ p).take k = (x ++ q).take k) (hk : x.length ≤ k) :
    p.take (k - x.length) = q.take (k - x.length) := by
  rw [List.take_append, List.take_append, List.take_of_length_le hk] at h
  exact List.append_cancel_left h

theorem take_eq_of_le {m : Nat} (h : p.take k = l.take k) (hm : m ≤ k) : p.take m = l.take m := by
  rw [← Nat.min_eq_left hm, ← List.take_take, ← List.take_take, h]

end Take

/-! ### Unique reading -/

def Token.opens : Token → Bool
  | .openArray | .openObject => true
  | t => t.value?.isSome

namespace Value

/-- Each value is spelled by at least one token, which opens it. -/
theorem exists_spelling (v : Value) : ∃ t rest, v.spelling = t :: rest ∧ t.opens = true := by
  cases v with
  | bool b => cases b <;> exact ⟨_, _, rfl, rfl⟩
  | null => exact ⟨_, _, rfl, rfl⟩
  | number n => exact ⟨_, _, rfl, rfl⟩
  | text s => exact ⟨_, _, rfl, rfl⟩
  | array items => exact ⟨_, _, rfl, rfl⟩
  | object members => exact ⟨_, _, rfl, rfl⟩

/-- A value that begins with a scalar is that scalar. -/
theorem eq_of_scalar {v w : Value} {t : Token} {rest : List Token} (h : w.spelling = t :: rest)
    (ht : t.value? = some v) : w = v ∧ rest = [] := by
  cases w with
  | bool b =>
    cases b <;>
    · rw [spelling, List.cons.injEq] at h
      rw [← h.1] at ht
      exact ⟨Option.some.inj ht, h.2.symm⟩
  | null | number | text =>
    rw [spelling, List.cons.injEq] at h
    rw [← h.1] at ht
    exact ⟨Option.some.inj ht, h.2.symm⟩
  | array | object =>
    rw [spelling, List.cons.injEq] at h
    rw [← h.1] at ht
    cases ht

end Value

section Separate

variable {α : Type} {f : α → List Token} {close : Token} {xs ys : List α} {a b : List Token}

/-- The spellings of some things begin otherwise than by a closing token or a comma. -/
def Begins (f : α → List Token) : Prop := ∀ x, ∃ t rest, f x = t :: rest ∧ t.opens = true

theorem Begins.take_ne {k : Nat} {rest : List Token} (hf : Begins f) (x : α) (hopens : close.opens = false)
    (hk : 0 < k) : (f x ++ a).take k ≠ (close :: rest).take k := by
  intro h
  obtain ⟨t, tail, hx, ht⟩ := hf x
  obtain ⟨k, rfl⟩ := Nat.exists_eq_add_one_of_ne_zero (Nat.ne_of_gt hk)
  rw [hx, List.cons_append, List.take_succ_cons, List.take_succ_cons, List.cons.injEq] at h
  rw [h.1, hopens] at ht
  cases ht

/-- An item is not spelled like the end of its container. -/
theorem Begins.ne {rest : List Token} (hf : Begins f) (x : α) (hopens : close.opens = false)
    (a : List Token) : close :: rest ≠ f x ++ a := by
  intro h
  have htake : (f x ++ a).take 1 ≠ (close :: rest).take 1 := hf.take_ne x hopens Nat.one_pos
  rw [h] at htake
  exact htake rfl

/-- If each item can be told from its spelling, so can the items behind the first, whatever follows. -/
theorem separateRest_append_inj (hclose : close ≠ .comma)
    (hinj : ∀ x ∈ xs, ∀ y a b, f x ++ a = f y ++ b → x = y ∧ a = b)
    (h : separateRest close (xs.map f) ++ a = separateRest close (ys.map f) ++ b) : xs = ys ∧ a = b := by
  induction xs generalizing ys with
  | nil =>
    cases ys with
    | nil =>
      rw [List.map_nil] at h
      exact ⟨rfl, List.append_cancel_left h⟩
    | cons y ys =>
      rw [List.map_nil, List.map_cons, separateRest, separateRest, List.cons_append, List.cons_append,
        List.cons.injEq] at h
      exact absurd h.1 hclose
  | cons x xs ih =>
    cases ys with
    | nil =>
      rw [List.map_nil, List.map_cons, separateRest, separateRest, List.cons_append, List.cons_append,
        List.cons.injEq] at h
      exact absurd h.1.symm hclose
    | cons y ys =>
      rw [List.map_cons, List.map_cons, separateRest, separateRest, List.cons_append, List.cons_append,
        List.cons.injEq, List.append_assoc, List.append_assoc] at h
      obtain ⟨rfl, hrest⟩ := hinj x List.mem_cons_self y _ _ h.2
      obtain ⟨rfl, rfl⟩ := ih (fun x hx => hinj x (List.mem_cons_of_mem _ hx)) hrest
      exact ⟨rfl, rfl⟩

/-- So can all items of a container. -/
theorem separate_append_inj (hf : Begins f) (hclose : close ≠ .comma) (hopens : close.opens = false)
    (hinj : ∀ x ∈ xs, ∀ y a b, f x ++ a = f y ++ b → x = y ∧ a = b)
    (h : separate close (xs.map f) ++ a = separate close (ys.map f) ++ b) : xs = ys ∧ a = b := by
  cases xs with
  | nil =>
    cases ys with
    | nil =>
      rw [List.map_nil] at h
      exact ⟨rfl, List.append_cancel_left h⟩
    | cons y ys =>
      rw [List.map_nil, List.map_cons, separate, separate, List.append_assoc] at h
      exact absurd h (hf.ne y hopens _)
  | cons x xs =>
    cases ys with
    | nil =>
      rw [List.map_nil, List.map_cons, separate, separate, List.append_assoc] at h
      exact absurd h.symm (hf.ne x hopens _)
    | cons y ys =>
      rw [List.map_cons, List.map_cons, separate, separate, List.append_assoc, List.append_assoc] at h
      obtain ⟨rfl, hrest⟩ := hinj x List.mem_cons_self y _ _ h
      obtain ⟨rfl, rfl⟩ :=
        separateRest_append_inj hclose (fun x hx => hinj x (List.mem_cons_of_mem _ hx)) hrest
      exact ⟨rfl, rfl⟩

end Separate

namespace Value

theorem begins_spelling : Begins spelling := exists_spelling

theorem begins_memberSpelling : Begins memberSpelling := fun _ => ⟨_, _, rfl, rfl⟩

theorem spelling_append_inj_of_scalar {v w : Value} {t : Token} {a b : List Token} (ht : t.value? = some v)
    (h : [t] ++ a = w.spelling ++ b) : v = w ∧ a = b := by
  obtain ⟨t', rest, hw, -⟩ := w.exists_spelling
  rw [hw, List.singleton_append, List.cons_append, List.cons.injEq] at h
  obtain ⟨rfl, hrest⟩ := h
  obtain ⟨rfl, rfl⟩ := eq_of_scalar hw ht
  exact ⟨rfl, hrest⟩

/-- Members can be told apart if their values can. -/
theorem memberSpelling_append_inj_of {m m' : String × Value} {a b : List Token}
    (hinj : m.2.spelling ++ a = m'.2.spelling ++ b → m.2 = m'.2 ∧ a = b)
    (h : memberSpelling m ++ a = memberSpelling m' ++ b) : m = m' ∧ a = b := by
  simp only [memberSpelling, List.cons_append, List.cons.injEq, Token.text.injEq, true_and] at h
  obtain ⟨hvalue, rfl⟩ := hinj h.2
  exact ⟨Prod.ext h.1 hvalue, rfl⟩

/-- No spelling of a value is the beginning of that of another one. -/
-- the recursion is on the value, and both containers hand it down to their items
theorem spelling_append_inj : (v w : Value) → {a b : List Token} →
    v.spelling ++ a = w.spelling ++ b → v = w ∧ a = b
  | .null, _, _, _, h => spelling_append_inj_of_scalar rfl h
  | .bool true, _, _, _, h => spelling_append_inj_of_scalar rfl h
  | .bool false, _, _, _, h => spelling_append_inj_of_scalar rfl h
  | .number _, _, _, _, h => spelling_append_inj_of_scalar rfl h
  | .text _, _, _, _, h => spelling_append_inj_of_scalar rfl h
  | .array items, w, _, _, h => by
    rw [spelling_array, List.cons_append] at h
    cases w with
    | array items' =>
      rw [spelling_array, List.cons_append, List.cons.injEq] at h
      obtain ⟨rfl, rfl⟩ := separate_append_inj begins_spelling (by simp) rfl
        (fun x hx y _ _ hxy => spelling_append_inj x y hxy) h.2
      exact ⟨rfl, rfl⟩
    | bool p => cases p <;> cases h
    | null | number | text | object => cases h
  | .object members, w, _, _, h => by
    rw [spelling_object, List.cons_append] at h
    cases w with
    | object members' =>
      rw [spelling_object, List.cons_append, List.cons.injEq] at h
      obtain ⟨rfl, rfl⟩ := separate_append_inj begins_memberSpelling (by simp) rfl
        (fun m hm m' _ _ hmm => memberSpelling_append_inj_of (spelling_append_inj m.2 m'.2) hmm) h.2
      exact ⟨rfl, rfl⟩
    | bool p => cases p <;> cases h
    | null | number | text | array => cases h
termination_by v => sizeOf v
decreasing_by
  · have hlt := List.sizeOf_lt_of_mem hx
    simp only [array.sizeOf_spec]
    omega
  · have hlt := List.sizeOf_lt_of_mem hm
    obtain ⟨k, u⟩ := m
    simp only [object.sizeOf_spec, Prod.mk.sizeOf_spec] at hlt ⊢
    omega

theorem memberSpelling_append_inj (m m' : String × Value) {a b : List Token}
    (h : memberSpelling m ++ a = memberSpelling m' ++ b) : m = m' ∧ a = b :=
  memberSpelling_append_inj_of (spelling_append_inj m.2 m'.2) h

end Value

/-! ### Paths -/

/-- How many tokens stand between the bracket that opens a container and an item of it. -/
def offset (xs : List (List Token)) (j : Nat) : Nat := ((xs.take j).map (·.length + 1)).sum

namespace Value

/-- The value that a path of indices leads to, and how many tokens come before it. -/
def at? : Value → List Nat → Option (Nat × Value)
  | v, [] => some (0, v)
  | .array items, j :: path =>
    (items[j]?).bind fun u => (u.at? path).map fun (i, w) => (1 + offset (items.map spelling) j + i, w)
  | .object members, j :: path =>
    (members[j]?).bind fun m =>
      (m.2.at? path).map fun (i, w) => (1 + offset (members.map memberSpelling) j + 2 + i, w)
  | _, _ :: _ => none

end Value

section Separate

variable {α : Type} {f : α → List Token} {close : Token} {xs ys : List α} {a b : List Token} {x : α}
  {j k : Nat}

/-- The first item comes first, and the rest of the container behind it. -/
theorem separate_map_cons (x : α) (xs : List α) (a : List Token) :
    separate close ((x :: xs).map f) ++ a = f x ++ (separateRest close (xs.map f) ++ a) := by
  rw [List.map_cons, separate, List.append_assoc]

/-- Behind an item the others follow a comma. -/
theorem separateRest_map_cons (x : α) (xs : List α) (a : List Token) :
    separateRest close ((x :: xs).map f) ++ a = .comma :: (separate close ((x :: xs).map f) ++ a) := rfl

/-- An item comes behind the first one and its comma. -/
theorem offset_succ (x : List Token) (xs : List (List Token)) (j : Nat) :
    offset (x :: xs) (j + 1) = x.length + 1 + offset xs j := by
  simp [offset]

theorem offset_map_succ (x : α) (xs : List α) (j : Nat) :
    offset ((x :: xs).map f) (j + 1) = (f x).length + 1 + offset (xs.map f) j := offset_succ _ _ _

def Follows (close : Token) (back : List Token) : Prop :=
  ∃ t rest, back = t :: rest ∧ (t = .comma ∨ t = close)

/-- An item within its container. -/
theorem separate_split (f : α → List Token) (close : Token) (h : xs[j]? = some x) :
    ∃ front back, separate close (xs.map f) = front ++ f x ++ back ∧
      front.length = offset (xs.map f) j ∧ Follows close back := by
  -- the item is the first one, or it is found in the rest with the first one in front
  induction j generalizing xs with
  | zero =>
    cases xs with
    | nil => cases h
    | cons x₀ xs =>
      obtain rfl : x₀ = x := Option.some.inj h
      refine ⟨[], separateRest close (xs.map f), rfl, rfl, ?_⟩
      cases xs with
      | nil => exact ⟨_, _, rfl, Or.inr rfl⟩
      | cons => exact ⟨_, _, rfl, Or.inl rfl⟩
  | succ j ih =>
    match xs, h with
    | x₀ :: x₁ :: xs, h =>
      obtain ⟨front, back, hsplit, hlength, hback⟩ := ih h
      refine ⟨f x₀ ++ .comma :: front, back, ?_, ?_, hback⟩
      · have hcons : separate close ((x₀ :: x₁ :: xs).map f) ++ [] = _ := separate_map_cons _ _ _
        rw [separateRest_map_cons, hsplit] at hcons
        simpa using hcons
      · rw [offset_map_succ, ← hlength]
        simp only [List.length_append, List.length_cons]
        omega

/-- Two containers that begin with the same tokens have the same items before the place where they part, and
agree as far within the next one. -/
theorem separate_agree (hf : Begins f) (hclose : close ≠ .comma) (hopens : close.opens = false)
    (hinj : ∀ x y a b, f x ++ a = f y ++ b → x = y)
    (hagree : (separate close (xs.map f) ++ a).take k = (separate close (ys.map f) ++ b).take k)
    (hx : xs[j]? = some x) (hj : offset (xs.map f) j < k) :
    ∃ y a' b', ys[j]? = some y ∧ offset (ys.map f) j = offset (xs.map f) j ∧
      (f x ++ a').take (k - offset (xs.map f) j) = (f y ++ b').take (k - offset (xs.map f) j) := by
  have hpos : 0 < k := Nat.zero_lt_of_lt hj
  -- as for `separate_split`, but on both lists at once
  induction j generalizing xs ys k with
  | zero =>
    match xs, hx with
    | x₀ :: xs, hx =>
      obtain rfl : x₀ = x := Option.some.inj hx
      rw [separate_map_cons] at hagree
      cases ys with
      | nil => exact absurd hagree (hf.take_ne _ hopens hpos)
      | cons y ys =>
        rw [separate_map_cons] at hagree
        exact ⟨y, _, _, rfl, rfl, hagree⟩
  | succ j ih =>
    match xs, hx with
    | x₀ :: x₁ :: xs, hx =>
      rw [offset_map_succ] at hj
      rw [separate_map_cons] at hagree
      have hlength : (f x₀).length ≤ k := by omega
      cases ys with
      | nil => exact absurd hagree (hf.take_ne _ hopens hpos)
      | cons y₀ ys =>
        rw [separate_map_cons] at hagree
        -- The first items agree to their ends, so they are the same.
        obtain ⟨c, hc⟩ := isPrefix_of_take_eq hagree hlength
        obtain rfl : x₀ = y₀ := hinj _ _ _ _ hc
        have hrest := take_append_cancel hagree hlength
        obtain ⟨n, hn⟩ : ∃ n, k - (f x₀).length = n + 1 := ⟨k - (f x₀).length - 1, by omega⟩
        rw [hn, separateRest_map_cons, List.take_succ_cons] at hrest
        cases ys with
        | nil =>
          rw [List.map_nil, separateRest, List.singleton_append, List.take_succ_cons, List.cons.injEq] at hrest
          exact absurd hrest.1.symm hclose
        | cons y₁ ys =>
          rw [separateRest_map_cons, List.take_succ_cons, List.cons.injEq] at hrest
          obtain ⟨y, a', b', hy, hoffset, htake⟩ := ih hrest.2 hx (by omega) (by omega)
          refine ⟨y, a', b', hy, ?_, ?_⟩
          · rw [offset_map_succ, offset_map_succ, hoffset]
          · have hk : k - offset ((x₀ :: x₁ :: xs).map f) (j + 1) = n - offset ((x₁ :: xs).map f) j := by
              rw [offset_map_succ]
              omega
            rw [hk]
            exact htake

end Separate

namespace Value

variable {v w u : Value} {path : List Nat} {i k : Nat} {a b : List Token}

theorem exists_of_at?_array {items : List Value} {j : Nat} (h : (array items).at? (j :: path) = some (i, u)) :
    ∃ x k, items[j]? = some x ∧ x.at? path = some (k, u) ∧ i = 1 + offset (items.map spelling) j + k := by
  obtain ⟨x, hx, h⟩ := Option.bind_eq_some_iff.mp h
  obtain ⟨⟨k, u'⟩, hat, h⟩ := Option.map_eq_some_iff.mp h
  cases h
  exact ⟨x, k, hx, hat, rfl⟩

theorem exists_of_at?_object {members : List (String × Value)} {j : Nat}
    (h : (object members).at? (j :: path) = some (i, u)) :
    ∃ m k, members[j]? = some m ∧ m.2.at? path = some (k, u) ∧
      i = 1 + offset (members.map memberSpelling) j + 2 + k := by
  obtain ⟨m, hm, h⟩ := Option.bind_eq_some_iff.mp h
  obtain ⟨⟨k, u'⟩, hat, h⟩ := Option.map_eq_some_iff.mp h
  cases h
  exact ⟨m, k, hm, hat, rfl⟩

/-- A value stands within the spelling of any value that it is part of, and a comma or a closing bracket
follows it there, if anything does. -/
theorem spelling_of_at? (h : v.at? path = some (i, u)) :
    ∃ front back, v.spelling = front ++ u.spelling ++ back ∧ front.length = i ∧
      ∀ t ∈ back.head?, t = .comma ∨ t = .closeArray ∨ t = .closeObject := by
  -- on the path: each index leads through one container, whose own split gives what stands on both sides
  induction path generalizing v i with
  | nil =>
    cases h
    exact ⟨[], [], by simp, rfl, by simp⟩
  | cons j path ih =>
    -- What follows the value in its own container comes before what follows that container.
    have hbehind {inner outer : List Token} {close : Token}
        (hinner : ∀ t ∈ inner.head?, t = .comma ∨ t = .closeArray ∨ t = .closeObject)
        (hclose : close = .closeArray ∨ close = .closeObject) (houter : Follows close outer) :
        ∀ t ∈ (inner ++ outer).head?, t = .comma ∨ t = .closeArray ∨ t = .closeObject := by
      cases inner with
      | cons t inner => exact hinner
      | nil =>
        obtain ⟨t, rest, rfl, ht⟩ := houter
        intro t' ht'
        cases ht'
        rcases ht with rfl | rfl
        · exact Or.inl rfl
        · exact Or.inr hclose
    cases v with
    | array items =>
      obtain ⟨x, i', hx, hat, rfl⟩ := exists_of_at?_array h
      obtain ⟨front, back, hspelling, hlength, hback⟩ := ih hat
      obtain ⟨front', back', hsplit, hlength', hback'⟩ :=
        separate_split spelling .closeArray hx
      refine ⟨.openArray :: (front' ++ front), back ++ back', ?_, ?_, hbehind hback (Or.inl rfl) hback'⟩
      · rw [spelling_array, hsplit, hspelling]
        simp
      · simp only [List.length_cons, List.length_append]
        omega
    | object members =>
      obtain ⟨m, i', hm, hat, rfl⟩ := exists_of_at?_object h
      obtain ⟨front, back, hspelling, hlength, hback⟩ := ih hat
      obtain ⟨front', back', hsplit, hlength', hback'⟩ :=
        separate_split memberSpelling .closeObject hm
      refine ⟨.openObject :: (front' ++ .text m.1 :: .colon :: front), back ++ back', ?_, ?_,
        hbehind hback (Or.inr rfl) hback'⟩
      · rw [spelling_object, hsplit, memberSpelling, hspelling]
        simp
      · simp only [List.length_cons, List.length_append]
        omega
    | null | bool | number | text => cases h

/-- Two values that begin with the same tokens have the same values at a path that begins there, as far as
these tokens go. -/
theorem at?_of_agree (hagree : (v.spelling ++ a).take k = (w.spelling ++ b).take k)
    (h : v.at? path = some (i, u)) (hi : i < k) :
    ∃ u' a' b', w.at? path = some (i, u') ∧
      (u.spelling ++ a').take (k - i) = (u'.spelling ++ b').take (k - i) := by
  -- both values are entered by the same index, as their tokens agree up to the item and beyond
  induction path generalizing v w i k a b with
  | nil =>
    cases h
    exact ⟨w, a, b, rfl, hagree⟩
  | cons j path ih =>
    obtain ⟨k, rfl⟩ := Nat.exists_eq_add_one_of_ne_zero (Nat.ne_of_gt (Nat.zero_lt_of_lt hi))
    obtain ⟨t, rest, hw, -⟩ := w.exists_spelling
    cases v with
    | array items =>
      obtain ⟨x, i', hx, hat, rfl⟩ := exists_of_at?_array h
      rw [spelling_array, List.cons_append, List.take_succ_cons, hw, List.cons_append, List.take_succ_cons,
        List.cons.injEq] at hagree
      obtain ⟨rfl, hagree⟩ := hagree
      cases w with
      | array items' =>
        rw [spelling_array, List.cons.injEq] at hw
        rw [← hw.2] at hagree
        obtain ⟨y, a', b', hy, hoffset, hitem⟩ := separate_agree begins_spelling (by simp) rfl
          (fun x y _ _ hxy => (spelling_append_inj x y hxy).1) hagree hx (by omega)
        obtain ⟨w, a'', b'', hw', htake⟩ := ih hitem hat (by omega)
        refine ⟨w, a'', b'', ?_, ?_⟩
        · rw [at?, hy, Option.bind_some, hw', Option.map_some, hoffset]
        · have hk : k + 1 - (1 + offset (items.map spelling) j + i') = k - offset (items.map spelling) j - i' := by
            omega
          rw [hk]
          exact htake
      | bool p => cases p <;> cases hw
      | null | number | text | object => cases hw
    | object members =>
      obtain ⟨m, i', hm, hat, rfl⟩ := exists_of_at?_object h
      rw [spelling_object, List.cons_append, List.take_succ_cons, hw, List.cons_append, List.take_succ_cons,
        List.cons.injEq] at hagree
      obtain ⟨rfl, hagree⟩ := hagree
      cases w with
      | object members' =>
        rw [spelling_object, List.cons.injEq] at hw
        rw [← hw.2] at hagree
        obtain ⟨m', a', b', hm', hoffset, hmember⟩ := separate_agree begins_memberSpelling (by simp) rfl
          (fun m m' _ _ hmm => (memberSpelling_append_inj m m' hmm).1) hagree hm (by omega)
        obtain ⟨n, hn⟩ : ∃ n, k - offset (members.map memberSpelling) j = n + 1 + 1 :=
          ⟨k - offset (members.map memberSpelling) j - 2, by omega⟩
        simp only [memberSpelling, List.cons_append, hn, List.take_succ_cons, List.cons.injEq] at hmember
        obtain ⟨w, a'', b'', hw', htake⟩ := ih hmember.2.2 hat (by omega)
        refine ⟨w, a'', b'', ?_, ?_⟩
        · rw [at?, hm', Option.bind_some, hw', Option.map_some, hoffset]
        · have hk : k + 1 - (1 + offset (members.map memberSpelling) j + 2 + i') = n - i' := by omega
          rw [hk]
          exact htake
      | bool p => cases p <;> cases hw
      | null | number | text | array => cases hw
    | null | bool | number | text => cases h

/-- A value stands at the same place in any document that has the same tokens up to its end. -/
theorem at?_of_take_eq (h : v.at? path = some (i, u)) (hagree : w.spelling.take k = v.spelling.take k)
    (hk : i + u.spelling.length ≤ k) : w.at? path = some (i, u) := by
  have hpos : 0 < u.spelling.length := by
    obtain ⟨t, rest, hu, -⟩ := u.exists_spelling
    rw [hu]
    exact Nat.succ_pos _
  have hagree' : (v.spelling ++ []).take k = (w.spelling ++ []).take k := by
    rw [List.append_nil, List.append_nil]
    exact hagree.symm
  obtain ⟨u', a', b', hw, htake⟩ := at?_of_agree hagree' h (by omega)
  obtain ⟨c, hc⟩ := isPrefix_of_take_eq htake (by omega)
  obtain ⟨rfl, -⟩ := spelling_append_inj u u' hc
  exact hw

/-- Some value stands where another document with the same tokens up to there has one. -/
theorem exists_at?_of_take_eq (h : v.at? path = some (i, u)) (hagree : w.spelling.take k = v.spelling.take k)
    (hi : i < k) : ∃ u', w.at? path = some (i, u') := by
  have hagree' : (v.spelling ++ []).take k = (w.spelling ++ []).take k := by
    rw [List.append_nil, List.append_nil]
    exact hagree.symm
  obtain ⟨u', -, -, hw, -⟩ := at?_of_agree hagree' h hi
  exact ⟨u', hw⟩

/-- Only a whole document begins with its first token. -/
theorem eq_nil_of_at? (h : v.at? path = some (0, u)) : path = [] := by
  cases path with
  | nil => rfl
  | cons j path =>
    cases v with
    | array items =>
      obtain ⟨x, k, -, -, hi⟩ := exists_of_at?_array h
      omega
    | object members =>
      obtain ⟨m, k, -, -, hi⟩ := exists_of_at?_object h
      omega
    | null | bool | number | text => cases h

/-! ### Tokens of a value within a document -/

/-- The tokens of a value stand where its path leads. -/
theorem getElem?_at (h : v.at? path = some (i, u)) {j : Nat} (hj : j < u.spelling.length) :
    v.spelling[i + j]? = u.spelling[j]? := by
  obtain ⟨front, back, hspelling, rfl, -⟩ := spelling_of_at? h
  rw [hspelling, List.append_assoc, List.getElem?_append_right (Nat.le_add_right _ _), Nat.add_sub_cancel_left,
    List.getElem?_append_left hj]

/-- Behind them the container goes on or ends. -/
theorem getElem?_behind (h : v.at? path = some (i, u)) {t : Token}
    (ht : v.spelling[i + u.spelling.length]? = some t) : t = .comma ∨ t = .closeArray ∨ t = .closeObject := by
  obtain ⟨front, back, hspelling, rfl, hback⟩ := spelling_of_at? h
  rw [hspelling, ← List.length_append, List.getElem?_append_right (Nat.le_refl _), Nat.sub_self] at ht
  exact hback t (by rw [List.head?_eq_getElem?]; exact ht)

end Value

end GuidedDecoding.Json
