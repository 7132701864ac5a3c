import GuidedDecoding.Proofs.Json.Path

/-!
# Documents cut short

`Truncation` says which values are another one cut short. A reading that is broken off and has its open
containers closed gives such a value, `Progress.closed`, and every further token only adds to it
(`Progress.below_of_moves`). So what was read by then is a truncation of what the whole document says
(`Progress.Runs.truncation`).
-/

namespace GuidedDecoding.Json

/-! ### Truncations -/

/-- The first value is the second one cut short: of a string a beginning is left, and of a container its
first items, the last of which may be cut short itself. Everything else is left whole. -/
inductive Truncation : Value → Value → Prop
  | whole {v : Value} : Truncation v v
  | text {s t : String} : s.toList <+: t.toList → Truncation (.text s) (.text t)
  | noItems {items : List Value} : Truncation (.array []) (.array items)
  | items {front rest : List Value} {u v : Value} :
      Truncation u v → Truncation (.array (front ++ [u])) (.array (front ++ v :: rest))
  | noMembers {members : List (String × Value)} : Truncation (.object []) (.object members)
  | members {front rest : List (String × Value)} {key : String} {u v : Value} :
      Truncation u v → Truncation (.object (front ++ [(key, u)])) (.object (front ++ (key, v) :: rest))

/-- An item of a list stands at its end or before it. -/
theorem eq_or_exists_of_append_cons_eq {α : Type} {front front' rest : List α} {x y : α}
    (h : front ++ x :: rest = front' ++ [y]) :
    (front = front' ∧ x = y ∧ rest = []) ∨ ∃ rest', rest = rest' ++ [y] ∧ front' = front ++ x :: rest' := by
  rcases rest.eq_nil_or_concat' with rfl | ⟨rest', z, rfl⟩
  · obtain ⟨hfront, hx⟩ := List.append_inj' h rfl
    exact Or.inl ⟨hfront, List.singleton_inj.mp hx, rfl⟩
  · rw [← List.cons_append, ← List.append_assoc] at h
    obtain ⟨hfront, hz⟩ := List.append_inj' h rfl
    obtain rfl := List.singleton_inj.mp hz
    exact Or.inr ⟨rest', rfl, hfront.symm⟩

/-- An item of a list that was cut short is the last one, or the same as in the whole list. -/
theorem eq_or_cut_of_getElem? {α : Type} {front rest : List α} {a b a' b' : α} {k : Nat}
    (ha : (front ++ [a])[k]? = some a') (hb : (front ++ b :: rest)[k]? = some b') :
    a' = b' ∨ a' = a ∧ b' = b := by
  rcases Nat.lt_trichotomy k front.length with hlt | rfl | hgt
  · rw [List.getElem?_append_left hlt] at ha hb
    rw [ha] at hb
    exact Or.inl (Option.some.inj hb)
  · rw [List.getElem?_append_right (Nat.le_refl _), Nat.sub_self] at ha hb
    exact Or.inr ⟨(Option.some.inj ha).symm, (Option.some.inj hb).symm⟩
  · rw [List.getElem?_eq_none (by simp; omega)] at ha
    cases ha

namespace Truncation

variable {u v w : Value}

/-- What is cut short twice is cut short. -/
theorem trans (h : Truncation u v) (h' : Truncation v w) : Truncation u w := by
  -- on the second cut; the first one may only have been made in the part that the second one leaves
  induction h' generalizing u with
  | whole => exact h
  | text hst =>
    cases h with
    | whole => exact .text hst
    | text hrs => exact .text (hrs.trans hst)
  | noItems =>
    generalize hv : Value.array [] = v at h
    cases h with
    | whole => exact hv ▸ .noItems
    | noItems => exact .noItems
    | items => simp at hv
    | text => cases hv
    | noMembers => cases hv
    | members => cases hv
  | @items front rest x y hxy ih =>
    generalize hv : Value.array (front ++ [x]) = v at h
    cases h with
    | whole => exact hv ▸ .items hxy
    | noItems => exact .noItems
    | items h =>
      -- The second cut is within the item at which the first one was made, or before it.
      rcases eq_or_exists_of_append_cons_eq (Value.array.inj hv).symm with ⟨rfl, rfl, rfl⟩ | ⟨rest', rfl, rfl⟩
      · exact .items (ih h)
      · rw [List.append_assoc, List.cons_append]
        exact .items h
    | text => cases hv
    | noMembers => cases hv
    | members => cases hv
  | noMembers =>
    generalize hv : Value.object [] = v at h
    cases h with
    | whole => exact hv ▸ .noMembers
    | noMembers => exact .noMembers
    | members => simp at hv
    | text => cases hv
    | noItems => cases hv
    | items => cases hv
  | @members front rest key x y hxy ih =>
    generalize hv : Value.object (front ++ [(key, x)]) = v at h
    cases h with
    | whole => exact hv ▸ .members hxy
    | noMembers => exact .noMembers
    | members h =>
      rcases eq_or_exists_of_append_cons_eq (Value.object.inj hv).symm with ⟨rfl, heq, rfl⟩ | ⟨rest', rfl, rfl⟩
      · cases heq
        exact .members (ih h)
      · rw [List.append_assoc, List.cons_append]
        exact .members h
    | text => cases hv
    | noItems => cases hv
    | items => cases hv

/-- An array may lose its last items. -/
theorem array_append (xs ys : List Value) : Truncation (.array xs) (.array (xs ++ ys)) := by
  rcases xs.eq_nil_or_concat' with rfl | ⟨front, x, rfl⟩
  · exact .noItems
  · rw [List.append_assoc, List.singleton_append]
    exact .items .whole

/-- The first members of an object are the object cut short. -/
theorem object_append (xs ys : List (String × Value)) : Truncation (.object xs) (.object (xs ++ ys)) := by
  rcases xs.eq_nil_or_concat' with rfl | ⟨front, ⟨key, u⟩, rfl⟩
  · exact .noMembers
  · rw [List.append_assoc, List.singleton_append]
    exact .members .whole

/-- What is at one place of a truncation is a truncation of what is there in the whole. -/
theorem at? {path : List Nat} {i j : Nat} {x y : Value} (h : Truncation u v) (hu : u.at? path = some (i, x))
    (hv : v.at? path = some (j, y)) : Truncation x y := by
  -- on the cut, with the path taken one index at a time
  induction h generalizing path i j with
  | whole =>
    rw [hu] at hv
    cases hv
    exact .whole
  | text hst =>
    cases path with
    | nil =>
      cases hu
      cases hv
      exact .text hst
    | cons => cases hu
  | noItems =>
    cases path with
    | nil =>
      cases hu
      cases hv
      exact .noItems
    | cons => cases hu
  | @items front rest a b hab ih =>
    cases path with
    | nil =>
      cases hu
      cases hv
      exact .items hab
    | cons k path =>
      obtain ⟨a', i', ha', hx, -⟩ := Value.exists_of_at?_array hu
      obtain ⟨b', j', hb', hy, -⟩ := Value.exists_of_at?_array hv
      -- The path leads into an item that is left as it was, or into the one that is cut short.
      rcases eq_or_cut_of_getElem? ha' hb' with rfl | ⟨rfl, rfl⟩
      · rw [hx] at hy
        cases hy
        exact .whole
      · exact ih hx hy
  | noMembers =>
    cases path with
    | nil =>
      cases hu
      cases hv
      exact .noMembers
    | cons => cases hu
  | @members front rest key a b hab ih =>
    cases path with
    | nil =>
      cases hu
      cases hv
      exact .members hab
    | cons k path =>
      obtain ⟨a', i', ha', hx, -⟩ := Value.exists_of_at?_object hu
      obtain ⟨b', j', hb', hy, -⟩ := Value.exists_of_at?_object hv
      rcases eq_or_cut_of_getElem? ha' hb' with rfl | ⟨rfl, rfl⟩
      · rw [hx] at hy
        cases hy
        exact .whole
      · exact ih hx hy

end Truncation

/-- What has been read of an item is less than what has been read of it later; nothing is the least. -/
inductive Below : Option Value → Option Value → Prop
  | none {a : Option Value} : Below none a
  | some {u v : Value} : Truncation u v → Below (some u) (some v)

namespace Below

variable {a b c : Option Value}

theorem refl (a : Option Value) : Below a a := by
  cases a with
  | none => exact .none
  | some v => exact .some .whole

/-- Less than what is less is less. -/
theorem trans (h : Below a b) (h' : Below b c) : Below a c := by
  cases h with
  | none => exact .none
  | some h =>
    cases h' with
    | some h' => exact .some (h.trans h')

end Below

/-! ### Closing what is open -/

def Frame.close (last : Option Value) : Frame → Value
  | .array items => .array (last.toList ++ items).reverse
  | .object members key => .object (last.toList.map (key, ·) ++ members).reverse

def Frame.closeToken : Frame → Token
  | .array _ => .closeArray
  | .object .. => .closeObject

def Frame.closer : Frame → Char
  | .array _ => ']'
  | .object .. => '}'

theorem tokens_closers (fs : List Frame) : tokens (fs.map Frame.closer) = fs.map Frame.closeToken := by
  induction fs with
  | nil => rfl
  | cons f fs ih =>
    cases f with
    | array items => exact congrArg (Token.closeArray :: ·) ih
    | object members key => exact congrArg (Token.closeObject :: ·) ih

/-- A container that is closed later holds what it held before, its last item perhaps longer. -/
theorem Frame.close_mono {a b : Option Value} (f : Frame) (h : Below a b) :
    Truncation (f.close a) (f.close b) := by
  cases f with
  | array items =>
    rw [close, close, List.reverse_append, List.reverse_append]
    cases h with
    | none =>
      rw [Option.toList_none, List.reverse_nil, List.append_nil]
      exact .array_append _ _
    | some h => exact .items h
  | object members key =>
    rw [close, close, List.reverse_append, List.reverse_append]
    cases h with
    | none =>
      rw [Option.toList_none, List.map_nil, List.reverse_nil, List.append_nil]
      exact .object_append _ _
    | some h => exact .members h

namespace Progress

/-- The containers closed, innermost first, with what has been read of the next item. -/
def closeAll (last : Option Value) : List Frame → Option Value
  | [] => last
  | f :: fs => closeAll (some (f.close last)) fs

def stack : Progress → List Frame
  | .reading stack _ => stack
  | .done _ => []

/-- What has been read so far. A key without a value does not count. -/
def closed : Progress → Option Value
  | .reading stack _ => closeAll none stack
  | .done v => some v

variable {a b : Option Value} {fs stack : List Frame} {awaiting : Awaiting} {t : Token} {ts : List Token}
  {p q : Progress} {v w : Value}

/-- So do all containers that are open. -/
theorem closeAll_mono (fs : List Frame) (h : Below a b) : Below (closeAll a fs) (closeAll b fs) := by
  induction fs generalizing a b with
  | nil => exact h
  | cons f fs ih => exact ih (.some (f.close_mono h))

theorem closed_supply (v : Value) (stack : List Frame) : closed (supply v stack) = closeAll (some v) stack := by
  cases stack with
  | nil => rfl
  | cons f fs => cases f <;> rfl

/-- A token only adds to what has been read. -/
theorem below_of_moves (h : Moves stack awaiting t q) : Below (closeAll none stack) q.closed := by
  cases h with
  | scalar =>
    rw [closed_supply]
    exact closeAll_mono _ .none
  | openArray => exact closeAll_mono _ .none
  | openObject => exact closeAll_mono _ .none
  | key => exact .refl _
  | colon => exact .refl _
  | commaMember => exact .refl _
  | commaItem => exact .refl _
  | closeArray =>
    rw [closed_supply]
    exact .refl _
  | closeObject =>
    rw [closed_supply]
    exact .refl _

/-- In the course of a reading what has been read only grows. -/
theorem below_of_runs (h : Runs p ts q) : Below p.closed q.closed := by
  induction h with
  | nil => exact .refl _
  | cons hstep _ ih => exact (below_of_moves (moves_of_step hstep)).trans ih

/-- What has been read by some point is a truncation of the whole. -/
theorem Runs.truncation (h : Runs p ts (.done v)) (hw : p.closed = some w) : Truncation w v := by
  have hbelow := below_of_runs h
  rw [hw] at hbelow
  cases hbelow with
  | some htrunc => exact htrunc

/-! ### Closing tokens -/

/-- The open containers may be closed here. -/
inductive Closable : Progress → Prop
  | done {v : Value} : Closable (.done v)
  | items {items : List Value} {fs : List Frame} : Closable (.reading (.array items :: fs) .itemOrClose)
  | members {members : List (String × Value)} {key : String} {fs : List Frame} :
      Closable (.reading (.object members key :: fs) .keyOrClose)
  | behind {f : Frame} {fs : List Frame} : Closable (.reading (f :: fs) .commaOrClose)

/-- Behind a value every open container may be closed. -/
theorem closable_supply (v : Value) (stack : List Frame) : Closable (supply v stack) := by
  cases stack with
  | nil => exact .done
  | cons f fs => cases f <;> exact .behind

theorem closer_supply (v : Value) (fs : List Frame) :
    (supply v fs).stack.map Frame.closer = fs.map Frame.closer := by
  cases fs with
  | nil => rfl
  | cons f fs => cases f <;> rfl

/-- Closing the containers there completes the reading. -/
theorem runs_closers_supply (v : Value) (fs : List Frame) :
    ∃ w, closeAll (some v) fs = some w ∧ Runs (supply v fs) (fs.map Frame.closeToken) (.done w) := by
  induction fs generalizing v with
  | nil => exact ⟨v, rfl, .nil⟩
  | cons f fs ih =>
    obtain ⟨w, hw, hruns⟩ := ih (f.close (some v))
    refine ⟨w, hw, ?_⟩
    cases f with
    | array items => exact .cons rfl hruns
    | object members key => exact .cons rfl hruns

/-- Closing the open containers gives what has been read so far. -/
theorem Closable.runs_closers (h : Closable p) :
    ∃ w, p.closed = some w ∧ Runs p (p.stack.map Frame.closeToken) (.done w) := by
  cases h with
  | @done v => exact ⟨v, rfl, .nil⟩
  | @items items fs =>
    obtain ⟨w, hw, hruns⟩ := runs_closers_supply (Frame.close none (.array items)) fs
    exact ⟨w, hw, .cons rfl hruns⟩
  | @members members key fs =>
    obtain ⟨w, hw, hruns⟩ := runs_closers_supply (Frame.close none (.object members key)) fs
    exact ⟨w, hw, .cons rfl hruns⟩
  | @behind f fs =>
    obtain ⟨w, hw, hruns⟩ := runs_closers_supply (f.close none) fs
    refine ⟨w, hw, ?_⟩
    cases f with
    | array items => exact .cons rfl hruns
    | object members key => exact .cons rfl hruns

end Progress

end GuidedDecoding.Json
