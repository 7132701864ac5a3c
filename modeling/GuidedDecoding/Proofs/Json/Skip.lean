import GuidedDecoding.Json.Reader
import GuidedDecoding.Proofs.Json.Value

/-!
# Readers of values

Whatever type is asked for, its reader takes the tokens of one value: it could have skipped them instead
(`Reader.ReadsValue`). Every reader of this project is made of a few by a few combinators, and all of them are
such readers.

Skipping sees the tokens without the faults that do not matter to it, and counts no containers.
`Progress.Skims` says where tokens lead a reading in this way; `Reader.skip_eq_ok_iff` that they lead through one
value exactly where it can be skipped.
-/

namespace GuidedDecoding.Json

open Reader (lenient skip)

namespace Progress

/-- The tokens `ts` lead a reading that skips from `p` to `q`, where `us` are left. -/
inductive Skims : Progress → List Token → Progress → List Token → Prop
  | refl {p : Progress} {ts : List Token} : Skims p ts p ts
  | step {stack : List Frame} {awaiting : Awaiting} {t : Token} {ts us : List Token} {p q : Progress} :
      Moves stack awaiting (lenient t) p → Skims p ts q us → Skims (.reading stack awaiting) (t :: ts) q us

variable {stack fs : List Frame} {awaiting awaiting' : Awaiting} {t : Token} {ts us rest : List Token}
  {p q r : Progress} {v : Value} {limit : Nat}

/-- Skipping can be done in two parts. -/
theorem Skims.trans (h : Skims p ts q us) (h' : Skims q us r rest) : Skims p ts r rest := by
  induction h with
  | refl => exact h'
  | step hm _ ih => exact .step hm (ih h')

/-- Whatever moves a reading has no fault. -/
theorem Moves.lenient_eq (h : Moves stack awaiting t p) : lenient t = t := by
  cases h with
  | scalar _ hv =>
    unfold Token.value? at hv
    split at hv <;> first | rfl | cases hv
  | openArray => rfl
  | openObject => rfl
  | key => rfl
  | colon => rfl
  | commaMember => rfl
  | commaItem => rfl
  | closeArray => rfl
  | closeObject => rfl

/-! ### Taking and skimming -/

/-- A reading goes on wherever there is room for one more container. -/
theorem Moves.step_eq (h : Moves stack awaiting t p) (hlimit : stack.length < limit) :
    step limit stack awaiting t = .ok p := by
  cases h with
  | scalar ha hv =>
    unfold Token.value? at hv
    split at hv <;> cases hv <;> cases ha <;> rfl
  | openArray ha => cases ha <;> simp [step, begin, enter, hlimit]
  | openObject ha => cases ha <;> simp [step, begin, enter, hlimit]
  | key ha => cases ha <;> rfl
  | colon => rfl
  | commaMember => rfl
  | commaItem hnone =>
    cases stack with
    | nil => rfl
    | cons f fs =>
      cases f with
      | array items => rfl
      | object members key => exact absurd rfl (hnone members key fs)
  | closeArray ha => rcases ha with rfl | rfl <;> rfl
  | closeObject ha => rcases ha with rfl | rfl <;> rfl

/-- A token opens one container at most. -/
theorem Moves.length_le (h : Moves stack awaiting t (.reading fs awaiting')) : fs.length ≤ stack.length + 1 := by
  have hsupply {v : Value} {gs : List Frame} (h : supply v gs = .reading fs awaiting') :
      fs.length = gs.length := by
    cases gs with
    | nil => cases h
    | cons g gs => cases g <;> cases h <;> rfl
  -- all moves but the two that open a container leave no more of them open than there were
  generalize hp : Progress.reading fs awaiting' = p at h
  cases h with
  | scalar _ _ =>
    rw [hsupply hp.symm]
    exact Nat.le_succ _
  | closeArray =>
    rw [hsupply hp.symm]
    simp only [List.length_cons]
    omega
  | closeObject =>
    rw [hsupply hp.symm]
    simp only [List.length_cons]
    omega
  | openArray =>
    cases hp
    exact Nat.le_refl _
  | openObject =>
    cases hp
    exact Nat.le_refl _
  | key =>
    cases hp
    exact Nat.le_succ _
  | colon =>
    cases hp
    exact Nat.le_succ _
  | commaMember =>
    cases hp
    exact Nat.le_succ _
  | commaItem =>
    cases hp
    exact Nat.le_succ _

/-- What is taken is skimmed, however the tokens are seen, as long as nothing is seen where skipping sees a
fault. -/
theorem skims_of_take {see : Token → Token}
    (hsee : ∀ {stack awaiting t p}, Moves stack awaiting (see t) p → Moves stack awaiting (lenient t) p)
    (h : take see limit stack awaiting ts = .ok (v, us)) : Skims (.reading stack awaiting) ts (.done v) us := by
  induction ts generalizing stack awaiting with
  | nil => cases h
  | cons t ts ih =>
    rw [take] at h
    cases hstep : step limit stack awaiting (see t) with
    | error flaw =>
      simp only [hstep] at h
      cases h
    | ok p =>
      simp only [hstep] at h
      have hm : Moves stack awaiting (lenient t) p := hsee (moves_of_step hstep)
      cases p with
      | reading stack' awaiting' => exact .step hm (ih h)
      | done w =>
        cases h
        exact .step hm .refl

/-- With room for as many containers as there are tokens, a value is taken that can be skimmed. -/
theorem take_of_skims (h : Skims (.reading stack awaiting) ts (.done v) us)
    (hlimit : stack.length + ts.length ≤ limit) : take lenient limit stack awaiting ts = .ok (v, us) := by
  induction ts generalizing stack awaiting with
  | nil => cases h
  | cons t ts ih =>
    rw [List.length_cons] at hlimit
    cases h with
    | @step _ _ _ _ _ p _ hm hrest =>
      rw [take, hm.step_eq (by omega)]
      cases p with
      | reading stack' awaiting' =>
        have hlength := hm.length_le
        exact ih hrest (by omega)
      | done w =>
        cases hrest
        rfl

end Progress

/-- One value can be skipped where the tokens lead through one. -/
theorem Reader.skip_eq_ok_iff {ts us : List Token} :
    skip ts = .ok us ↔ ∃ v, Progress.Skims .start ts (.done v) us := by
  unfold skip
  constructor
  · intro h
    cases htake : Progress.take lenient (ts.length + 1) [] .value ts with
    | error flaw =>
      rw [htake] at h
      cases h
    | ok result =>
      obtain ⟨v, rest⟩ := result
      rw [htake] at h
      cases h
      exact ⟨v, Progress.skims_of_take id htake⟩
  · rintro ⟨v, h⟩
    rw [Progress.take_of_skims h (Nat.le_of_lt (by simp))]

namespace Progress

/-! ### A value inside a container -/

def within (fs : List Frame) : Progress → Progress
  | .reading stack awaiting => .reading (stack ++ fs) awaiting
  | .done v => supply v fs

theorem within_supply (v : Value) (stack fs : List Frame) :
    (supply v stack).within fs = supply v (stack ++ fs) := by
  cases stack with
  | nil => rfl
  | cons f stack => cases f <;> rfl

/-- A reading that has not come to its end: outside of all containers it is at the beginning. -/
def Due : Progress → Prop
  | .reading [] awaiting => awaiting = .value
  | _ => True

/-- Behind a value a reading is due what follows it. -/
theorem due_supply (v : Value) (stack : List Frame) : (supply v stack).Due := by
  cases stack with
  | nil => exact trivial
  | cons f stack => cases f <;> exact trivial

/-- A token does the same whatever is open further out. -/
theorem Moves.within (h : Moves stack awaiting t p) (hdue : (Progress.reading stack awaiting).Due)
    (fs : List Frame) : Moves (stack ++ fs) awaiting t (p.within fs) ∧ p.Due := by
  -- a move looks at the innermost container only, which stays the innermost one
  cases h with
  | scalar ha hv =>
    rw [within_supply]
    exact ⟨.scalar ha hv, due_supply _ _⟩
  | openArray ha => exact ⟨.openArray ha, trivial⟩
  | openObject ha => exact ⟨.openObject ha, trivial⟩
  | key ha => exact ⟨.key ha, trivial⟩
  | colon =>
    cases stack with
    | nil => cases hdue
    | cons f stack => exact ⟨.colon, trivial⟩
  | commaMember => exact ⟨.commaMember, trivial⟩
  | commaItem hnone =>
    cases stack with
    | nil => cases hdue
    | cons f stack =>
      refine ⟨.commaItem ?_, trivial⟩
      rintro members key gs h
      cases h
      exact hnone members key stack rfl
  | closeArray ha =>
    rw [within_supply]
    exact ⟨.closeArray ha, due_supply _ _⟩
  | closeObject ha =>
    rw [within_supply]
    exact ⟨.closeObject ha, due_supply _ _⟩

/-- Skipping goes on in the same way with more containers around. -/
theorem Skims.within (h : Skims p ts q us) (hdue : p.Due) (fs : List Frame) :
    Skims (p.within fs) ts (q.within fs) us := by
  induction h with
  | refl => exact .refl
  | step hm _ ih =>
    obtain ⟨hm', hdue'⟩ := hm.within hdue fs
    exact .step hm' (ih hdue')

/-- Where an item may begin, a value may. -/
theorem Moves.item (h : Moves stack .value t p) : Moves stack .itemOrClose t p := by
  cases h with
  | scalar ha hv => exact .scalar .itemOrClose hv
  | openArray => exact .openArray .itemOrClose
  | openObject => exact .openObject .itemOrClose
  | key ha => cases ha
  | closeArray ha => rcases ha with h | h <;> cases h
  | closeObject ha => rcases ha with h | h <;> cases h

/-- A value is supplied to the container that is open. -/
theorem Skims.value (h : Skims .start ts (.done v) us) (ha : awaiting.IsValue) (fs : List Frame) :
    Skims (.reading fs awaiting) ts (supply v fs) us := by
  cases h with
  | step hm hrest =>
    obtain ⟨hm', hdue⟩ := hm.within rfl fs
    have hrest' : Skims _ _ (supply v fs) us := hrest.within hdue fs
    cases ha with
    | value => exact .step hm' hrest'
    | itemOrClose => exact .step hm'.item hrest'

/-- A token that is a value by itself. -/
theorem skims_scalar (h : (lenient t).value? = some v) : Skims .start (t :: ts) (.done v) ts :=
  .step (.scalar .value h) .refl

end Progress

/-- A result of two steps is one of the second from one of the first. -/
theorem bind_eq_ok_iff {ε α β : Type} {x : Except ε α} {f : α → Except ε β} {b : β} :
    (x >>= f) = .ok b ↔ ∃ a, x = .ok a ∧ f a = .ok b := by
  cases x with
  | error e =>
    constructor
    · intro h
      cases h
    · rintro ⟨a, ha, -⟩
      cases ha
  | ok a =>
    constructor
    · intro h
      exact ⟨a, rfl, h⟩
    · rintro ⟨a', ha, h⟩
      cases ha
      exact h

namespace Reader

open Progress (Skims)

variable {α β σ : Type} {read : Reader α} {limit fuel : Nat} {isFirst : Bool} {ts us : List Token}

/-- Whatever the reader takes could have been skipped instead. -/
def ReadsValue (read : Reader α) : Prop :=
  ∀ (limit : Nat) (ts us : List Token) (a : α), read limit ts = .ok (a, us) → skip ts = .ok us

/-- So it can be skipped. -/
theorem ReadsValue.skims (h : read.ReadsValue) {a : α} (hread : read limit ts = .ok (a, us)) :
    ∃ v, Skims .start ts (.done v) us :=
  skip_eq_ok_iff.mp (h _ _ _ _ hread)

theorem readsValue_of_skims
    (h : ∀ limit ts us a, read limit ts = .ok (a, us) → ∃ v, Skims .start ts (.done v) us) : read.ReadsValue := by
  intro limit ts us a hread
  exact skip_eq_ok_iff.mpr (h limit ts us a hread)

/-! ### Single values -/

theorem readsValue_value : value.ReadsValue := by
  apply readsValue_of_skims
  intro limit ts us v h
  have hsee {stack awaiting t p} (hm : Progress.Moves stack awaiting (id t) p) :
      Progress.Moves stack awaiting (lenient t) p := by
    rw [id] at hm
    rw [hm.lenient_eq]
    exact hm
  exact ⟨v, Progress.skims_of_take hsee h⟩

theorem readsValue_bool : bool.ReadsValue := by
  apply readsValue_of_skims
  intro limit ts us a h
  unfold bool at h
  split at h
  · cases h
    exact ⟨_, Progress.skims_scalar rfl⟩
  · cases h
    exact ⟨_, Progress.skims_scalar rfl⟩
  · cases h

theorem text_eq_ok {s : String} (h : text limit ts = .ok (s, us)) : ts = .text s :: us := by
  unfold text at h
  split at h <;> cases h
  rfl

theorem readsValue_text : text.ReadsValue := by
  apply readsValue_of_skims
  intro limit ts us s h
  rw [text_eq_ok h]
  exact ⟨_, Progress.skims_scalar rfl⟩

theorem readsValue_number : number.ReadsValue := by
  apply readsValue_of_skims
  intro limit ts us a h
  unfold number at h
  split at h
  · cases h
    exact ⟨_, Progress.skims_scalar rfl⟩
  · cases h

/-- Refusing some of the values makes no difference to that. -/
theorem ReadsValue.refine (h : read.ReadsValue) (f : α → Option β) : (read.refine f).ReadsValue := by
  intro limit ts us b hread
  unfold Reader.refine at hread
  split at hread
  · cases hread
  · next a rest ha =>
    split at hread
    · cases hread
      exact h _ _ _ _ ha
    · cases hread

theorem readsValue_integer (low high : Int) : (integer low high).ReadsValue := by
  unfold integer
  exact readsValue_number.refine _

theorem readsValue_natural (high : Nat) : (natural high).ReadsValue := by
  unfold natural
  exact (readsValue_integer 0 high).refine _

theorem readsValue_word64 : word64.ReadsValue := readsValue_natural _

theorem readsValue_single : single.ReadsValue := by
  unfold single
  exact readsValue_number.refine _

theorem ReadsValue.optional (h : read.ReadsValue) : (optional read).ReadsValue := by
  intro limit ts us a hread
  unfold Reader.optional at hread
  split at hread
  · cases hread
    exact skip_eq_ok_iff.mpr ⟨_, Progress.skims_scalar rfl⟩
  · split at hread
    · next b rest hb =>
      cases hread
      exact h _ _ _ _ hb
    · cases hread

/-! ### Items of an array -/

/-- Where an array stands that is being read: before its first item, or behind one. -/
def behind (isFirst : Bool) : Awaiting := if isFirst then .itemOrClose else .commaOrClose

/-- The array ends here, or an item begins here, or it does behind a comma. -/
theorem nextItem_cases {more : Bool} (h : nextItem isFirst ts = .ok (more, us)) :
    (more = false ∧ ts = .closeArray :: us) ∨ (more = true ∧ isFirst = true ∧ ts = us) ∨
      (more = true ∧ isFirst = false ∧ ts = .comma :: us) := by
  unfold nextItem at h
  split at h
  · cases h
  · cases h
    exact Or.inl ⟨rfl, rfl⟩
  · split at h
    · next hfirst =>
      cases h
      exact Or.inr (Or.inl ⟨rfl, hfirst, rfl⟩)
    · next hfirst =>
      have hfalse : isFirst = false := by simpa using hfirst
      split at h
      · cases h
      · cases h
      · cases h
        exact Or.inr (Or.inr ⟨rfl, hfalse, rfl⟩)
      · cases h

/-- A closing bracket ends the array. -/
theorem skims_closeArray (items : List Value) (isFirst : Bool) (us : List Token) :
    Skims (.reading [.array items] (behind isFirst)) (.closeArray :: us) (.done (.array items.reverse)) us := by
  refine .step (.closeArray ?_) .refl
  cases isFirst with
  | true => exact Or.inl rfl
  | false => exact Or.inr rfl

/-- An item is supplied to the array, and then something is behind it. -/
theorem ReadsValue.skims_item (h : read.ReadsValue) {a : α} {rest : List Token}
    (hnext : nextItem isFirst ts = .ok (true, us)) (hread : read limit us = .ok (a, rest)) (vs : List Value) :
    ∃ v, Skims (.reading [.array vs] (behind isFirst)) ts (.reading [.array (v :: vs)] (behind false)) rest := by
  obtain ⟨v, hv⟩ := h.skims hread
  refine ⟨v, ?_⟩
  rcases nextItem_cases hnext with ⟨hmore, -⟩ | ⟨-, rfl, rfl⟩ | ⟨-, rfl, rfl⟩
  · cases hmore
  · exact hv.value .itemOrClose [.array vs]
  · refine .step (.commaItem ?_) (hv.value .value [.array vs])
    intro members key fs heq
    cases heq

/-- The items of an array can be skipped if each of them can. -/
theorem ReadsValue.items (h : read.ReadsValue) {as : List α}
    (hitems : items read limit fuel isFirst ts = .ok (as, us)) (vs : List Value) :
    ∃ v, Skims (.reading [.array vs] (behind isFirst)) ts (.done v) us := by
  induction fuel generalizing isFirst ts as vs with
  | zero => cases hitems
  | succ fuel ih =>
    rw [Reader.items] at hitems
    obtain ⟨⟨more, ts'⟩, hnext, hitems⟩ := bind_eq_ok_iff.mp hitems
    cases more with
    | false =>
      cases hitems
      rcases nextItem_cases hnext with ⟨-, rfl⟩ | ⟨hmore, -⟩ | ⟨hmore, -⟩
      · exact ⟨_, skims_closeArray vs isFirst us⟩
      · cases hmore
      · cases hmore
    | true =>
      obtain ⟨⟨a, rest⟩, hread, hitems⟩ := bind_eq_ok_iff.mp hitems
      obtain ⟨⟨bs, rest'⟩, hrest, hitems⟩ := bind_eq_ok_iff.mp hitems
      cases hitems
      obtain ⟨v, hv⟩ := h.skims_item hnext hread vs
      obtain ⟨w, hw⟩ := ih hrest (v :: vs)
      exact ⟨w, hv.trans hw⟩

theorem ReadsValue.list (h : read.ReadsValue) : (list read).ReadsValue := by
  apply readsValue_of_skims
  intro limit ts us as hread
  unfold Reader.list at hread
  split at hread
  · next rest =>
    split at hread
    · cases hread
    · obtain ⟨v, hv⟩ := h.items hread []
      exact ⟨v, .step (.openArray .value) hv⟩
  · cases hread

/-! ### Members of an object -/

/-- Where an object stands that is being read: before its first member, or behind one. -/
def behindMember (isFirst : Bool) : Awaiting := if isFirst then .keyOrClose else .commaOrClose

/-- The object ends here, or a key stands here, or it does behind a comma. -/
theorem nextKey_cases {key : Option String} (h : nextKey isFirst ts = .ok (key, us)) :
    (key = none ∧ ts = .closeObject :: us) ∨
      ∃ s, key = some s ∧
        (isFirst = true ∧ ts = .text s :: us ∨ isFirst = false ∧ ts = .comma :: .text s :: us) := by
  -- where a key is due there is a string, for every other token is refused
  have hkey {ts : List Token} (h : nextKey.key ts = .ok (key, us)) : ∃ s, key = some s ∧ ts = .text s :: us := by
    unfold nextKey.key at h
    split at h
    · cases h
    · cases h
      exact ⟨_, rfl, rfl⟩
    · cases h
    · cases h
  unfold nextKey at h
  split at h
  · cases h
  · cases h
    exact Or.inl ⟨rfl, rfl⟩
  · split at h
    · cases h
    · next hfirst =>
      obtain ⟨s, hs, rfl⟩ := hkey h
      exact Or.inr ⟨s, hs, Or.inr ⟨by simpa using hfirst, rfl⟩⟩
  · split at h
    · next hfirst =>
      obtain ⟨s, hs, rfl⟩ := hkey h
      exact Or.inr ⟨s, hs, Or.inl ⟨hfirst, rfl⟩⟩
    · cases h

theorem afterColon_eq_ok (h : afterColon ts = .ok us) : ts = .colon :: us := by
  unfold afterColon at h
  split at h <;> cases h
  rfl

/-- A key is taken, and then a colon is due. -/
theorem skims_key {s : String} (h : nextKey isFirst ts = .ok (some s, us)) (members : List (String × Value))
    (key : String) :
    Skims (.reading [.object members key] (behindMember isFirst)) ts (.reading [.object members s] .colon) us := by
  rcases nextKey_cases h with ⟨hnone, -⟩ | ⟨s', hs, ⟨rfl, rfl⟩ | ⟨rfl, rfl⟩⟩
  · cases hnone
  · cases hs
    exact .step (.key .keyOrClose) .refl
  · cases hs
    exact .step .commaMember (.step (.key .key) .refl)

/-- Members are read one by one, each of them a colon and a value. -/
theorem members_skims {member : σ → String → List Token → Except Flaw (σ × List Token)}
    (hmember : ∀ {state key ts state' us}, member state key ts = .ok (state', us) →
      ∃ v rest, ts = .colon :: rest ∧ Skims .start rest (.done v) us)
    {state state' : σ} (h : members member fuel isFirst state ts = .ok (state', us))
    (read : List (String × Value)) (key : String) :
    ∃ v, Skims (.reading [.object read key] (behindMember isFirst)) ts (.done v) us := by
  -- each member takes a key, a colon and a value, and leaves one unit of fuel less
  induction fuel generalizing isFirst state ts read key with
  | zero => cases h
  | succ fuel ih =>
    rw [Reader.members] at h
    obtain ⟨⟨next, ts'⟩, hnext, h⟩ := bind_eq_ok_iff.mp h
    cases next with
    | none =>
      cases h
      rcases nextKey_cases hnext with ⟨-, rfl⟩ | ⟨s, hs, -⟩
      · refine ⟨_, .step (.closeObject ?_) .refl⟩
        cases isFirst with
        | true => exact Or.inl rfl
        | false => exact Or.inr rfl
      · cases hs
    | some s =>
      obtain ⟨⟨state₁, ts₁⟩, hm, hrest⟩ := bind_eq_ok_iff.mp h
      obtain ⟨v, rest, rfl, hv⟩ := hmember hm
      obtain ⟨w, hw⟩ := ih hrest ((s, v) :: read) s
      refine ⟨w, (skims_key hnext read key).trans (.step .colon ?_)⟩
      exact (hv.value .value [.object read s]).trans hw

/-- An object that is read as a map can be skipped. -/
theorem ReadsValue.map (h : read.ReadsValue) : (map read).ReadsValue := by
  apply readsValue_of_skims
  intro limit ts us as hread
  unfold Reader.map at hread
  split at hread
  · next rest =>
    split at hread
    · cases hread
    · obtain ⟨⟨pairs, ts'⟩, hmembers, hread⟩ := bind_eq_ok_iff.mp hread
      cases hread
      refine (members_skims ?_ hmembers [] "").imp fun v hv => .step (.openObject .value) hv
      intro state key ts state' us hmember
      obtain ⟨ts₁, hcolon, hmember⟩ := bind_eq_ok_iff.mp hmember
      obtain ⟨⟨a, ts₂⟩, ha, hmember⟩ := bind_eq_ok_iff.mp hmember
      cases hmember
      obtain ⟨v, hv⟩ := h.skims ha
      exact ⟨v, ts₁, afterColon_eq_ok hcolon, hv⟩
  · cases hread

/-! ### Records and choices -/

/-- Every field of the record is read as one value. -/
def FieldsReadValues (fields : List (Field σ)) : Prop := ∀ field ∈ fields, ∀ state, (field.read state).ReadsValue

/-- A record that is written as an array can be skipped up to its closing bracket. -/
theorem positional_skims {fields : List (Field σ)} (hfields : FieldsReadValues fields) {state state' : σ}
    (h : positional limit fields isFirst state ts = .ok (state', us)) (vs : List Value) :
    ∃ v, Skims (.reading [.array vs] (behind isFirst)) ts (.done v) us := by
  -- each field takes one item of the array; the array may end early, and then the fields that are left stay
  -- unset
  induction fields generalizing isFirst state ts vs with
  | nil =>
    rw [positional.eq_def] at h
    dsimp only at h
    split at h
    · cases h
    · cases h
      exact ⟨_, skims_closeArray vs isFirst us⟩
    · cases h
  | cons field fields ih =>
    rw [FieldsReadValues, List.forall_mem_cons] at hfields
    rw [positional] at h
    obtain ⟨⟨more, ts'⟩, hnext, h⟩ := bind_eq_ok_iff.mp h
    cases more with
    | false =>
      cases h
      rcases nextItem_cases hnext with ⟨-, rfl⟩ | ⟨hmore, -⟩ | ⟨hmore, -⟩
      · exact ⟨_, skims_closeArray vs isFirst us⟩
      · cases hmore
      · cases hmore
    | true =>
      obtain ⟨⟨state₁, rest⟩, hread, hrest⟩ := bind_eq_ok_iff.mp h
      obtain ⟨v, hv⟩ := (hfields.1 state).skims_item hnext hread vs
      obtain ⟨w, hw⟩ := ih hfields.2 hrest (v :: vs)
      exact ⟨w, hv.trans hw⟩

/-- A member of a record is read, or it is skipped. -/
theorem member_skims {fields : List (Field σ)} (hfields : FieldsReadValues fields) {state state' : σ}
    {key : String} (h : member fields limit state key ts = .ok (state', us)) :
    ∃ v rest, ts = .colon :: rest ∧ Skims .start rest (.done v) us := by
  unfold member at h
  split at h
  · obtain ⟨rest, hcolon, h⟩ := bind_eq_ok_iff.mp h
    obtain ⟨rest', hskip, h⟩ := bind_eq_ok_iff.mp h
    cases h
    obtain ⟨v, hv⟩ := skip_eq_ok_iff.mp hskip
    exact ⟨v, rest, afterColon_eq_ok hcolon, hv⟩
  · next field hfield =>
    split at h
    · cases h
    · obtain ⟨rest, hcolon, hread⟩ := bind_eq_ok_iff.mp h
      obtain ⟨v, hv⟩ := (hfields field (List.mem_of_find?_eq_some hfield) state).skims hread
      exact ⟨v, rest, afterColon_eq_ok hcolon, hv⟩

/-- So a record can be skipped, whichever way it is written. -/
theorem readsValue_record {unset : σ} {fields : List (Field σ)} {complete : σ → Option α}
    (hfields : FieldsReadValues fields) : (record unset fields complete).ReadsValue := by
  apply ReadsValue.refine
  apply readsValue_of_skims
  intro limit ts us state h
  split at h
  · cases h
  · cases h
  · obtain ⟨v, hv⟩ := positional_skims hfields h []
    exact ⟨v, .step (.openArray .value) hv⟩
  · obtain ⟨v, hv⟩ := members_skims (member_skims hfields) h [] ""
    exact ⟨v, .step (.openObject .value) hv⟩
  · cases h

/-- So can the name of a choice, as a string or as an object with one member. -/
theorem readsValue_choice (names : List (String × α)) : (choice names).ReadsValue := by
  apply readsValue_of_skims
  intro limit ts us a h
  unfold choice at h
  -- the two ways of writing a choice, and all other tokens
  split at h
  · obtain ⟨b, -, h⟩ := bind_eq_ok_iff.mp h
    cases h
    exact ⟨_, Progress.skims_scalar rfl⟩
  · next rest =>
    split at h
    · cases h
    · obtain ⟨⟨s, ts₁⟩, htext, h⟩ := bind_eq_ok_iff.mp h
      obtain ⟨b, -, h⟩ := bind_eq_ok_iff.mp h
      obtain ⟨ts₂, hcolon, h⟩ := bind_eq_ok_iff.mp h
      rw [text_eq_ok htext, afterColon_eq_ok hcolon]
      split at h
      · split at h
        · cases h
          have hnull : Skims .start (.word .null :: .closeObject :: us) (.done .null) (.closeObject :: us) :=
            Progress.skims_scalar rfl
          have hmember := hnull.value .value [.object [] s]
          refine ⟨.object [(s, .null)], .step (.openObject .value) (.step (.key .keyOrClose) (.step .colon ?_))⟩
          exact hmember.trans (.step (.closeObject (Or.inr rfl)) .refl)
        · cases h
        · cases h
      · cases h
  · cases h
  · cases h
  · cases h

end Reader

end GuidedDecoding.Json
