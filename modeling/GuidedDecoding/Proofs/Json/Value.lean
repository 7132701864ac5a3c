import GuidedDecoding.Json.Value
import Mathlib

/-!
# Reading a value, and the tokens that spell it

`Progress.Runs` says where some tokens lead a reading, and `Progress.Moves` lists everything that one token
can do to it.

Tokens that are read as a value spell it (`Value.eq_spelling_of_ofTokens`). The invariant is
`Progress.Spells`: the tokens so far are the beginnings of the containers that are open.
-/

namespace GuidedDecoding.Json

/-! ### Where tokens lead -/

namespace Progress

def start : Progress := .reading [] .value

/-- The tokens lead from one point of a reading to another. -/
inductive Runs : Progress → List Token → Progress → Prop
  | nil {p : Progress} : Runs p [] p
  | cons {stack : List Frame} {awaiting : Awaiting} {t : Token} {ts : List Token} {p q : Progress} :
      step nestingLimit stack awaiting t = .ok p → Runs p ts q → Runs (.reading stack awaiting) (t :: ts) q

variable {stack : List Frame} {awaiting : Awaiting} {t : Token} {ts us : List Token} {p q r : Progress}
  {v : Value}

/-- A reading of two lists passes through one point between them. -/
theorem runs_append : Runs p (ts ++ us) r ↔ ∃ q, Runs p ts q ∧ Runs q us r := by
  induction ts generalizing p with
  | nil =>
    constructor
    · intro h
      exact ⟨p, .nil, h⟩
    · rintro ⟨q, h, h'⟩
      cases h
      exact h'
  | cons t ts ih =>
    constructor
    · intro h
      cases h with
      | cons hstep h =>
        obtain ⟨q, h, h'⟩ := ih.mp h
        exact ⟨q, .cons hstep h, h'⟩
    · rintro ⟨q, h, h'⟩
      cases h with
      | cons hstep h => exact .cons hstep (ih.mpr ⟨q, h, h'⟩)

/-- Tokens lead to one point at most. -/
theorem Runs.unique (h : Runs p ts q) (h' : Runs p ts r) : q = r := by
  induction h with
  | nil =>
    cases h'
    rfl
  | cons hstep _ ih =>
    cases h' with
    | cons hstep' h' =>
      rw [hstep] at hstep'
      cases hstep'
      exact ih h'

/-- What a reading comes to in the end, reading the front of a list finds too. -/
theorem take_of_runs (h : Runs (.reading stack awaiting) ts (.done v)) :
    take id nestingLimit stack awaiting (ts ++ us) = .ok (v, us) := by
  induction ts generalizing stack awaiting with
  | nil => cases h
  | cons t ts ih =>
    cases h with
    | @cons _ _ _ _ p _ hstep h =>
      rw [List.cons_append, take]
      simp only [id, hstep]
      cases p with
      | reading stack' awaiting' => exact ih h
      | done w =>
        cases h
        rfl

/-- And it finds nothing else. -/
theorem runs_of_take (h : take id nestingLimit stack awaiting ts = .ok (v, us)) :
    ∃ used, ts = used ++ us ∧ Runs (.reading stack awaiting) used (.done v) := by
  induction ts generalizing stack awaiting with
  | nil => cases h
  | cons t ts ih =>
    rw [take] at h
    cases hstep : step nestingLimit stack awaiting t with
    | error flaw =>
      simp only [id, hstep] at h
      cases h
    | ok p =>
      simp only [id, hstep] at h
      cases p with
      | reading stack' awaiting' =>
        obtain ⟨used, rfl, hruns⟩ := ih h
        exact ⟨t :: used, rfl, .cons hstep hruns⟩
      | done w =>
        cases h
        exact ⟨[t], rfl, .cons hstep .nil⟩

end Progress

/-- Tokens are those of a value when they lead to it. -/
theorem Value.ofTokens_eq_ok_iff {ts : List Token} {v : Value} :
    ofTokens ts = .ok v ↔ Progress.Runs .start ts (.done v) := by
  unfold ofTokens Value.take
  constructor
  · intro h
    split at h
    · next w htake =>
      cases h
      obtain ⟨used, hused, hruns⟩ := Progress.runs_of_take htake
      rw [hused, List.append_nil]
      exact hruns
    · cases h
    · cases h
  · intro h
    have htake : Progress.take id nestingLimit [] .value (ts ++ []) = .ok (v, []) := Progress.take_of_runs h
    rw [List.append_nil] at htake
    rw [htake]

/-! ### What a token can do -/

def Token.value? : Token → Option Value
  | .word .null => some .null
  | .word .true => some (.bool true)
  | .word .false => some (.bool false)
  | .number n => some (.number n)
  | .text s => some (.text s)
  | _ => none

inductive Awaiting.IsValue : Awaiting → Prop
  | value : IsValue .value
  | itemOrClose : IsValue .itemOrClose

inductive Awaiting.IsKey : Awaiting → Prop
  | key : IsKey .key
  | keyOrClose : IsKey .keyOrClose

namespace Progress

/-- Everything that a token can do to a reading that goes on. -/
inductive Moves : List Frame → Awaiting → Token → Progress → Prop
  | scalar {stack : List Frame} {awaiting : Awaiting} {t : Token} {v : Value} :
      awaiting.IsValue → t.value? = some v → Moves stack awaiting t (supply v stack)
  | openArray {stack : List Frame} {awaiting : Awaiting} :
      awaiting.IsValue → Moves stack awaiting .openArray (.reading (.array [] :: stack) .itemOrClose)
  | openObject {stack : List Frame} {awaiting : Awaiting} :
      awaiting.IsValue → Moves stack awaiting .openObject (.reading (.object [] "" :: stack) .keyOrClose)
  | key {members : List (String × Value)} {key s : String} {fs : List Frame} {awaiting : Awaiting} :
      awaiting.IsKey →
      Moves (.object members key :: fs) awaiting (.text s) (.reading (.object members s :: fs) .colon)
  | colon {stack : List Frame} : Moves stack .colon .colon (.reading stack .value)
  | commaMember {members : List (String × Value)} {key : String} {fs : List Frame} :
      Moves (.object members key :: fs) .commaOrClose .comma (.reading (.object members key :: fs) .key)
  | commaItem {stack : List Frame} : (∀ members key fs, stack ≠ .object members key :: fs) →
      Moves stack .commaOrClose .comma (.reading stack .value)
  | closeArray {items : List Value} {fs : List Frame} {awaiting : Awaiting} :
      awaiting = .itemOrClose ∨ awaiting = .commaOrClose →
      Moves (.array items :: fs) awaiting .closeArray (supply (.array items.reverse) fs)
  | closeObject {members : List (String × Value)} {key : String} {fs : List Frame} {awaiting : Awaiting} :
      awaiting = .keyOrClose ∨ awaiting = .commaOrClose →
      Moves (.object members key :: fs) awaiting .closeObject (supply (.object members.reverse) fs)

variable {stack : List Frame} {awaiting : Awaiting} {t : Token} {ts : List Token} {p q : Progress} {limit : Nat}

theorem moves_of_enter {frame : Frame} (h : enter limit frame awaiting stack = .ok p) :
    p = .reading (frame :: stack) awaiting := by
  unfold enter at h
  split at h
  · cases h
    rfl
  · cases h

theorem moves_of_begin (ha : awaiting.IsValue) (h : begin limit stack t = .ok p) :
    Moves stack awaiting t p := by
  unfold begin at h
  split at h
  all_goals first
    | cases h; done
    | cases h; exact .scalar ha rfl
    | obtain rfl := moves_of_enter h; exact .openArray ha
    | obtain rfl := moves_of_enter h; exact .openObject ha

theorem moves_of_beginKey (ha : awaiting.IsKey) (h : beginKey stack t = .ok p) :
    Moves stack awaiting t p := by
  unfold beginKey at h
  split at h
  · split at h
    · cases h
      exact .key ha
    · cases h
  · cases h
  · cases h

theorem moves_of_leave (h : leave stack t = .ok p)
    (hclose : t = .closeArray → awaiting = .itemOrClose ∨ awaiting = .commaOrClose)
    (hclose' : t = .closeObject → awaiting = .keyOrClose ∨ awaiting = .commaOrClose) :
    Moves stack awaiting t p := by
  unfold leave at h
  split at h
  · split at h
    · cases h
      exact .closeArray (hclose rfl)
    · cases h
  · split at h
    · cases h
      exact .closeObject (hclose' rfl)
    · cases h
  · cases h

/-- A token that can be taken makes one of the moves. -/
theorem moves_of_step (h : step limit stack awaiting t = .ok p) : Moves stack awaiting t p := by
  unfold step at h
  split at h
  · exact moves_of_begin .value h
  · exact moves_of_leave h (fun _ => Or.inl rfl) (fun h => nomatch h)
  · exact moves_of_begin .itemOrClose h
  · exact moves_of_leave h (fun h => nomatch h) (fun _ => Or.inl rfl)
  · exact moves_of_beginKey .keyOrClose h
  · exact moves_of_beginKey .key h
  · cases h
    exact .colon
  · cases h
  · split at h
    · cases h
      exact .commaMember
    · next hnone =>
      cases h
      exact .commaItem hnone
  · exact moves_of_leave h (fun _ => Or.inr rfl) (fun _ => Or.inr rfl)

/-- Where a value is due, a token that is a value by itself is supplied. -/
theorem Moves.eq_supply (h : Moves stack awaiting t p) (ha : awaiting.IsValue) {v : Value}
    (hv : t.value? = some v) : p = supply v stack := by
  cases h with
  | scalar _ hv' =>
    rw [hv] at hv'
    cases hv'
    rfl
  | key ha' => cases ha <;> cases ha'
  | openArray => cases hv
  | openObject => cases hv
  | colon => cases hv
  | commaMember => cases hv
  | commaItem => cases hv
  | closeArray => cases hv
  | closeObject => cases hv

/-- Where a key is due, a text is one. -/
theorem Moves.exists_key {s : String} (h : Moves stack awaiting (.text s) p) (ha : awaiting.IsKey) :
    ∃ members key fs, stack = .object members key :: fs ∧ p = .reading (.object members s :: fs) .colon := by
  cases h with
  | scalar ha' => cases ha <;> cases ha'
  | key => exact ⟨_, _, _, rfl, rfl⟩

theorem Runs.exists_moves (h : Runs p (t :: ts) q) :
    ∃ stack awaiting p', p = .reading stack awaiting ∧ Moves stack awaiting t p' ∧ Runs p [t] p' ∧ Runs p' ts q := by
  cases h with
  | cons hstep h => exact ⟨_, _, _, rfl, moves_of_step hstep, .cons hstep .nil, h⟩

theorem awaiting_of_supply {fs : List Frame} {v : Value} (h : supply v fs = .reading stack awaiting) :
    awaiting = .commaOrClose := by
  cases fs with
  | nil => cases h
  | cons f fs =>
    cases f <;>
    · cases h
      rfl

/-- Behind a value there may be a separator or a closing token. -/
theorem Moves.separator (h : Moves stack .commaOrClose t p) :
    t = .comma ∨ t = .closeArray ∨ t = .closeObject := by
  cases h with
  | scalar ha => cases ha
  | openArray ha => cases ha
  | openObject ha => cases ha
  | key ha => cases ha
  | commaMember => exact Or.inl rfl
  | commaItem => exact Or.inl rfl
  | closeArray => exact Or.inr (Or.inl rfl)
  | closeObject => exact Or.inr (Or.inr rfl)

/-- Behind a value comes a comma or a closing token. -/
theorem Runs.separator {v : Value} (h : Runs (supply v stack) (t :: ts) q) :
    t = .comma ∨ t = .closeArray ∨ t = .closeObject := by
  obtain ⟨stack', awaiting, p', hp, hm, -, -⟩ := h.exists_moves
  obtain rfl := awaiting_of_supply hp
  exact hm.separator

end Progress

/-! ### Spelling -/

/-- Lists of tokens with a comma in front of each, and a closing token behind them. -/
def separateRest (close : Token) : List (List Token) → List Token
  | [] => [close]
  | x :: xs => .comma :: (x ++ separateRest close xs)

def separate (close : Token) : List (List Token) → List Token
  | [] => [close]
  | x :: xs => x ++ separateRest close xs

namespace Value

mutual

def spelling : Value → List Token
  | .null => [.word .null]
  | .bool true => [.word .true]
  | .bool false => [.word .false]
  | .number n => [.number n]
  | .text s => [.text s]
  | .array items => .openArray :: separate .closeArray (itemSpellings items)
  | .object members => .openObject :: separate .closeObject (memberSpellings members)

def itemSpellings : List Value → List (List Token)
  | [] => []
  | v :: vs => v.spelling :: itemSpellings vs

def memberSpellings : List (String × Value) → List (List Token)
  | [] => []
  | (k, v) :: ms => (.text k :: .colon :: v.spelling) :: memberSpellings ms

end

def memberSpelling (m : String × Value) : List Token := .text m.1 :: .colon :: m.2.spelling

theorem itemSpellings_eq_map (vs : List Value) : itemSpellings vs = vs.map spelling := by
  induction vs with
  | nil => rfl
  | cons v vs ih => rw [itemSpellings, ih, List.map_cons]

theorem memberSpellings_eq_map (ms : List (String × Value)) :
    memberSpellings ms = ms.map memberSpelling := by
  induction ms with
  | nil => rfl
  | cons m ms ih =>
    obtain ⟨k, v⟩ := m
    rw [memberSpellings, ih, List.map_cons]
    rfl

/-- An array is spelled by its items with commas between them. -/
theorem spelling_array (items : List Value) :
    (array items).spelling = .openArray :: separate .closeArray (items.map spelling) := by
  rw [spelling, itemSpellings_eq_map]

/-- An object is spelled by its members with commas between them. -/
theorem spelling_object (members : List (String × Value)) :
    (object members).spelling = .openObject :: separate .closeObject (members.map memberSpelling) := by
  rw [spelling, memberSpellings_eq_map]

end Value

def commas (xs : List (List Token)) : List Token := xs.flatMap (· ++ [.comma])

theorem separateRest_concat (close : Token) (xs : List (List Token)) (x : List Token) :
    separateRest close (xs ++ [x]) = .comma :: (commas xs ++ x ++ [close]) := by
  induction xs with
  | nil => simp [separateRest, commas]
  | cons y xs ih =>
    rw [List.cons_append, separateRest, ih]
    simp [commas]

/-- The last item has no comma behind it. -/
theorem separate_concat (close : Token) (xs : List (List Token)) (x : List Token) :
    separate close (xs ++ [x]) = commas xs ++ x ++ [close] := by
  cases xs with
  | nil => rfl
  | cons y xs =>
    rw [List.cons_append, separate, separateRest_concat]
    simp [commas]

theorem Token.spelling_of_value? {t : Token} {v : Value} (h : t.value? = some v) : v.spelling = [t] := by
  unfold Token.value? at h
  split at h <;> cases h <;> rfl

/-! ### Soundness -/

namespace Progress

open Value

/-- The beginning of an object up to where a key is due. -/
def leadMembers (members : List (String × Value)) : List Token :=
  .openObject :: commas (members.reverse.map memberSpelling)

/-- The beginning of a container up to where a value is due. -/
def lead : Frame → List Token
  | .array items => .openArray :: commas (items.reverse.map spelling)
  | .object members key => leadMembers members ++ [.text key, .colon]

def leads : List Frame → List Token
  | [] => []
  | f :: fs => leads fs ++ lead f

/-- These tokens have led to this point of a reading. -/
inductive Spells : List Token → Progress → Prop
  | value (stack : List Frame) : Spells (leads stack) (.reading stack .value)
  | item {fs : List Frame} : Spells (leads (.array [] :: fs)) (.reading (.array [] :: fs) .itemOrClose)
  | firstKey {key : String} {fs : List Frame} :
      Spells (leads fs ++ leadMembers []) (.reading (.object [] key :: fs) .keyOrClose)
  | key {members : List (String × Value)} {key : String} {fs : List Frame} :
      Spells (leads fs ++ leadMembers members) (.reading (.object members key :: fs) .key)
  | colon {members : List (String × Value)} {key : String} {fs : List Frame} :
      Spells (leads fs ++ leadMembers members ++ [.text key]) (.reading (.object members key :: fs) .colon)
  | nextItem {items : List Value} {v : Value} {fs : List Frame} :
      Spells (leads (.array items :: fs) ++ v.spelling) (.reading (.array (v :: items) :: fs) .commaOrClose)
  | nextMember {members : List (String × Value)} {key key' : String} {v : Value} {fs : List Frame} :
      Spells (leads (.object members key :: fs) ++ v.spelling)
        (.reading (.object ((key, v) :: members) key' :: fs) .commaOrClose)
  | done {v : Value} : Spells v.spelling (.done v)

theorem lead_array_cons (items : List Value) (v : Value) :
    lead (.array (v :: items)) = lead (.array items) ++ v.spelling ++ [.comma] := by
  simp [lead, commas]

theorem leadMembers_cons (members : List (String × Value)) (m : String × Value) :
    leadMembers (m :: members) = leadMembers members ++ memberSpelling m ++ [.comma] := by
  simp [leadMembers, commas]

/-- A closing bracket ends the spelling of an array. -/
theorem spelling_array_reverse (items : List Value) (v : Value) :
    (array (v :: items).reverse).spelling = lead (.array items) ++ v.spelling ++ [.closeArray] := by
  rw [spelling_array, List.reverse_cons, List.map_append, List.map_singleton, separate_concat]
  rfl

/-- Members are kept last first, so the last one comes behind the others. -/
theorem spelling_object_reverse (members : List (String × Value)) (m : String × Value) :
    (object (m :: members).reverse).spelling =
      leadMembers members ++ memberSpelling m ++ [.closeObject] := by
  rw [spelling_object, List.reverse_cons, List.map_append, List.map_singleton, separate_concat]
  rfl

variable {stack : List Frame} {awaiting : Awaiting} {t : Token} {ts us : List Token} {p q : Progress}

/-- Where a value is due the tokens are the beginnings of the open containers. -/
theorem Spells.eq_leads (h : Spells ts (.reading stack awaiting)) (ha : awaiting.IsValue) :
    ts = leads stack := by
  cases ha <;> cases h <;> rfl

/-- Where a key is due the object has begun, and there is nothing of its next member. -/
theorem Spells.exists_key {members : List (String × Value)} {key : String} {fs : List Frame}
    (h : Spells ts (.reading (.object members key :: fs) awaiting)) (ha : awaiting.IsKey) :
    ts = leads fs ++ leadMembers members := by
  cases ha <;> cases h <;> rfl

/-- A value completes the tokens of the place that it is supplied to. -/
theorem spells_supply (stack : List Frame) (v : Value) : Spells (leads stack ++ v.spelling) (supply v stack) := by
  cases stack with
  | nil => exact .done
  | cons f fs =>
    cases f with
    | array items => exact .nextItem
    | object members key => exact .nextMember

/-- One more token. -/
theorem Spells.moves (h : Spells ts (.reading stack awaiting)) (hm : Moves stack awaiting t q) :
    Spells (ts ++ [t]) q := by
  cases hm with
  | scalar ha hv =>
    rw [h.eq_leads ha, ← Token.spelling_of_value? hv]
    exact spells_supply _ _
  | openArray ha =>
    rw [h.eq_leads ha]
    exact .item
  | openObject ha =>
    rw [h.eq_leads ha]
    exact .firstKey
  | key ha =>
    rw [h.exists_key ha]
    exact .colon
  | colon =>
    cases h
    rw [List.append_assoc, List.append_assoc]
    exact .value (.object _ _ :: _)
  | @commaMember _ _ fs =>
    cases h with
    | @nextMember members key _ v =>
      -- The value makes up a member with the key, and the comma ends it.
      have hlead : leads (.object members key :: fs) ++ v.spelling ++ [.comma] =
          leads fs ++ leadMembers ((key, v) :: members) := by
        rw [leadMembers_cons]
        simp [leads, lead, memberSpelling]
      rw [hlead]
      exact .key
  | commaItem hnone =>
    cases h with
    | @nextItem items v fs =>
      have hlead : leads (.array items :: fs) ++ v.spelling ++ [.comma] = leads (.array (v :: items) :: fs) := by
        rw [leads, leads, lead_array_cons]
        simp
      rw [hlead]
      exact .value _
    | nextMember => exact absurd rfl (hnone _ _ _)
  | @closeArray _ fs _ ha =>
    -- What has led into the array is its spelling with the bracket, and the array is a value of what it is in.
    rcases ha with rfl | rfl
    · cases h with
      | item =>
        have hlead : leads (.array [] :: fs) ++ [.closeArray] = leads fs ++ (array []).spelling := by
          rw [leads, List.append_assoc]
          rfl
        rw [hlead]
        exact spells_supply _ _
    · cases h with
      | @nextItem items v =>
        have hlead : leads (.array items :: fs) ++ v.spelling ++ [.closeArray] =
            leads fs ++ (array (v :: items).reverse).spelling := by
          rw [spelling_array_reverse]
          simp [leads]
        rw [hlead]
        exact spells_supply _ _
  | @closeObject _ _ fs _ ha =>
    rcases ha with rfl | rfl
    · cases h with
      | firstKey =>
        have hlead : leads fs ++ leadMembers [] ++ [.closeObject] = leads fs ++ (object []).spelling := by
          rw [List.append_assoc]
          rfl
        rw [hlead]
        exact spells_supply _ _
    · cases h with
      | @nextMember members key _ v =>
        have hlead : leads (.object members key :: fs) ++ v.spelling ++ [.closeObject] =
            leads fs ++ (object ((key, v) :: members).reverse).spelling := by
          rw [spelling_object_reverse]
          simp [leads, lead, memberSpelling]
        rw [hlead]
        exact spells_supply _ _

/-- What is behind some tokens has been spelled by them. -/
theorem Runs.spells (h : Runs p us q) (hp : Spells ts p) : Spells (ts ++ us) q := by
  induction h generalizing ts with
  | nil =>
    rw [List.append_nil]
    exact hp
  | cons hstep _ ih =>
    have h := ih (hp.moves (moves_of_step hstep))
    rwa [List.append_assoc] at h

end Progress

/-- The tokens that are read as a value spell it. -/
theorem Value.eq_spelling_of_ofTokens {ts : List Token} {v : Value} (h : ofTokens ts = .ok v) :
    ts = v.spelling := by
  have hspells := (ofTokens_eq_ok_iff.mp h).spells (.value [])
  cases hspells
  rfl

end GuidedDecoding.Json
