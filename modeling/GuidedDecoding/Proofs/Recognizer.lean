import GuidedDecoding.Recognizer
import GuidedDecoding.Proofs.TokenMask
import GuidedDecoding.Proofs.Vocabulary.Lexicon

/-!
# What a recognizer permits and what it accepts

The mask of a recognizer and the answer to a token that is offered are computed apart: the mask asks `permits`
for every id, and `accept` walks down its own branches. `accept_outcome` lists everything that offering a
token can do, and each case says what `permits` answers there, so the two agree (`accept_ne_rejected_iff`).
-/

namespace GuidedDecoding
namespace Recognizer

/-! ### The mask -/

/-- The candidates are the ids below the size of the lexicon. -/
theorem mem_candidates {l : Lexicon} {id : TokenId} : id ∈ candidates l ↔ id.toNat < l.size := by
  unfold candidates
  rw [List.mem_map]
  constructor
  · rintro ⟨n, hn, rfl⟩
    -- A number that is too large for an id wraps around, and gets no larger that way.
    have hle : (n.toUInt32).toNat ≤ n := by
      show (UInt32.ofNat n).toNat ≤ n
      rw [UInt32.toNat_ofNat']
      exact Nat.mod_le _ _
    exact Nat.lt_of_le_of_lt hle (List.mem_range.mp hn)
  · intro h
    exact ⟨id.toNat, List.mem_range.mpr h, by simp⟩

/-- The mask holds the permitted ids of the lexicon, whatever was in it before. -/
theorem mem_fill {r : Recognizer} {m : TokenMask} (hsize : m.size = r.lexicon.size) {id : TokenId} :
    id ∈ r.fill m ↔ id.toNat < r.lexicon.size ∧ r.permits id = true := by
  unfold fill
  rw [TokenMask.setAll_false, TokenMask.mem_foldl_insert (TokenMask.sized_none _), List.mem_filter,
    mem_candidates, TokenMask.size_none, hsize]
  constructor
  · rintro (h | ⟨⟨hlt, hp⟩, _⟩)
    · exact absurd h (TokenMask.not_mem_none _ _)
    · exact ⟨hlt, hp⟩
  · rintro ⟨hlt, hp⟩
    exact Or.inr ⟨⟨hlt, hp⟩, hlt⟩

/-- What was in a mask before does not matter, only its size. -/
theorem fill_congr (r : Recognizer) {m m' : TokenMask} (h : m.size = m'.size) : r.fill m = r.fill m' := by
  unfold fill
  rw [TokenMask.setAll_false, TokenMask.setAll_false, h]

/-! ### Offering a token -/

theorem extend?_eq_some_iff {walk next : Pattern.Walk} {bytes : Bytes} :
    extend? walk bytes = some next ↔
      bytes ≠ [] ∧ (walk.run bytes).isAlive = true ∧ next = walk.run bytes := by
  cases bytes with
  | nil => simp [extend?]
  | cons b bs => cases h : (walk.run (b :: bs)).isAlive <;> simp [extend?, h, eq_comm]

/-- Everything that offering a token can do: the recognizer behind it and the answer. -/
inductive Outcome (r : Recognizer) (id : TokenId) : Recognizer → Verdict → Prop where
  | rejected : r.permits id = false → Outcome r id r .rejected
  /-- A stop token ends the text. -/
  | stop : r.permits id = true → r.lexicon.isStop id = true →
      Outcome r id { r with stopped := true } .terminal
  /-- Any token may follow where there is no pattern. -/
  | free : r.permits id = true → r.lexicon.isStop id = false → r.progress = .free →
      Outcome r id r .continues
  /-- The bytes of the token keep the walk alive. -/
  | grows {table : Array Bytes} {walk : Pattern.Walk} {bytes : Bytes} :
      r.permits id = true → r.lexicon.isStop id = false → r.progress = .walk table walk →
      table[id.toNat]? = some bytes → (walk.run bytes).isAlive = true →
      Outcome r id { r with progress := .walk table (walk.run bytes) } .continues
  /-- They do, and nothing may follow them. -/
  | spent {table : Array Bytes} {walk : Pattern.Walk} {bytes : Bytes} :
      r.permits id = true → r.lexicon.isStop id = false → r.progress = .walk table walk →
      table[id.toNat]? = some bytes → (walk.run bytes).isAlive = true →
      r.lexicon.stop.isEmpty = true → (walk.run bytes).isComplete = true →
      Outcome r id { r with progress := .walk table (walk.run bytes), stopped := true } .terminal

theorem acceptFree_outcome {r : Recognizer} (hfree : r.progress = .free) (id : TokenId) :
    Outcome r id (r.acceptFree id).1 (r.acceptFree id).2 := by
  unfold acceptFree
  cases hp : r.permits id with
  | false => exact .rejected hp
  | true =>
    cases hs : r.lexicon.isStop id with
    | true => exact .stop hp hs
    | false => exact .free hp hs hfree

/-- What is permitted where a pattern is followed. -/
theorem permits_walk {r : Recognizer} {table : Array Bytes} {walk : Pattern.Walk} {id : TokenId}
    {bytes : Bytes} (hw : r.progress = .walk table walk) (hb : table[id.toNat]? = some bytes)
    (hr : r.stopped = false) :
    r.permits id =
      if r.lexicon.isStop id then walk.isComplete else (extend? walk bytes).isSome := by
  unfold permits
  rw [hw, hr]
  simp only [hb, Bool.not_false, Bool.true_and]

theorem acceptBytes_outcome {r : Recognizer} {table : Array Bytes} {walk : Pattern.Walk} {id : TokenId}
    {bytes : Bytes} (hw : r.progress = .walk table walk) (hb : table[id.toNat]? = some bytes)
    (hr : r.stopped = false) :
    Outcome r id (r.acceptBytes table walk id bytes).1 (r.acceptBytes table walk id bytes).2 := by
  have hpermits := permits_walk hw hb hr
  unfold acceptBytes
  cases hs : r.lexicon.isStop id with
  | true =>
    rw [hs, if_pos rfl] at hpermits
    cases hc : walk.isComplete with
    | true => exact .stop (hpermits.trans hc) hs
    | false => exact .rejected (hpermits.trans hc)
  | false =>
    -- Both sides extend the walk by the bytes of the token.
    rw [hs, if_neg Bool.false_ne_true] at hpermits
    cases hx : extend? walk bytes with
    | none =>
      rw [hx] at hpermits
      exact .rejected hpermits
    | some next =>
      rw [hx] at hpermits
      obtain ⟨-, halive, rfl⟩ := extend?_eq_some_iff.mp hx
      cases hspent : isSpent { r with progress := .walk table (walk.run bytes) } with
      | false =>
        simp only [hspent]
        exact .grows hpermits hs hw hb halive
      | true =>
        have hend : r.lexicon.stop.isEmpty = true ∧ (walk.run bytes).isComplete = true := by
          simp only [isSpent, Bool.and_eq_true] at hspent
          exact hspent.1
        simp only [hspent]
        exact .spent hpermits hs hw hb halive hend.1 hend.2

theorem accept_outcome (r : Recognizer) (id : TokenId) :
    Outcome r id (r.accept id).1 (r.accept id).2 := by
  unfold accept
  cases hp : r.progress with
  | free => exact acceptFree_outcome hp id
  | walk table walk =>
    simp only
    cases hb : table[id.toNat]? with
    | none =>
      refine .rejected ?_
      unfold permits
      rw [hp]
      simp [hb]
    | some bytes =>
      cases hr : r.stopped with
      | true =>
        refine .rejected ?_
        unfold permits
        rw [hr]
        rfl
      | false => exact acceptBytes_outcome hp hb hr

/-- A token is accepted exactly when it is permitted. -/
theorem accept_ne_rejected_iff (r : Recognizer) (id : TokenId) :
    (r.accept id).2 ≠ .rejected ↔ r.permits id = true := by
  have houtcome := accept_outcome r id
  generalize (r.accept id).1 = next, (r.accept id).2 = verdict at houtcome ⊢
  cases houtcome with
  | rejected hp => simp [hp]
  | stop hp => simp [hp]
  | free hp => simp [hp]
  | grows hp => simp [hp]
  | spent hp => simp [hp]

theorem accept_of_rejected {r : Recognizer} {id : TokenId} (h : (r.accept id).2 = .rejected) :
    (r.accept id).1 = r := by
  have houtcome := accept_outcome r id
  rw [h] at houtcome
  generalize (r.accept id).1 = next at houtcome ⊢
  cases houtcome
  rfl

/-! ### Texts that can go on -/

theorem continues_iff {r : Recognizer} :
    r.continues = true ↔ ∃ id : TokenId, id.toNat < r.lexicon.size ∧ id ∉ r.lexicon.stop ∧ r.permits id = true := by
  unfold continues
  rw [List.any_eq_true]
  constructor
  · rintro ⟨id, hid, h⟩
    rw [Bool.and_eq_true, Bool.not_eq_true'] at h
    refine ⟨id, mem_candidates.mp hid, ?_, h.2⟩
    intro hstop
    rw [Lexicon.isStop_iff.mpr hstop] at h
    exact Bool.noConfusion h.1
  · rintro ⟨id, hlt, hstop, hpermits⟩
    refine ⟨id, mem_candidates.mpr hlt, ?_⟩
    rw [Bool.and_eq_true, Bool.not_eq_true', Bool.eq_false_iff]
    exact ⟨fun h => hstop (Lexicon.isStop_iff.mp h), hpermits⟩

/-- A token other than a stop token ends the text if nothing may follow it and it needs no stop token. -/
theorem accept_of_extend {r : Recognizer} {table : Array Bytes} {walk next : Pattern.Walk} {id : TokenId}
    {bytes : Bytes} (hw : r.progress = .walk table walk) (hb : table[id.toNat]? = some bytes)
    (hr : r.stopped = false) (hs : r.lexicon.isStop id = false) (hnext : extend? walk bytes = some next) :
    r.accept id =
      if isSpent { r with progress := .walk table next } then finish { r with progress := .walk table next }
      else ({ r with progress := .walk table next }, .continues) := by
  unfold accept
  simp only [hw, hb, hr, acceptBytes, hs, hnext, Bool.false_eq_true, if_false]

/-! ### What is never permitted -/

/-- A permitted id has a slot in the vocabulary, is not special, and has bytes unless it is a stop
token. -/
theorem bytes_of_permits {r : Recognizer} {id : TokenId} (h : r.permits id = true)
    (htable : ∀ table walk, r.progress = .walk table walk → r.lexicon.table = .ok table)
    {s : String} (hs : r.lexicon.vocabulary.surface? id = some s) (hstop : r.lexicon.isStop id = false) :
    r.lexicon.bytesOf id s ≠ .ok [] := by
  intro hbytes
  unfold permits at h
  rw [Bool.and_eq_true] at h
  cases hp : r.progress with
  | free =>
    simp only [hp, hs, Option.any_some, Bool.and_eq_true, Bool.not_eq_true'] at h
    exact Lexicon.bytesOf_ne_nil h.2.1 h.2.2 hbytes rfl
  | walk table walk =>
    obtain ⟨bytes, hentry, heq⟩ := Lexicon.table_entry (htable table walk hp) hs
    simp only [hp, hentry, hstop] at h
    obtain ⟨next, hnext⟩ := Option.isSome_iff_exists.mp h.2
    have hne := (extend?_eq_some_iff.mp hnext).1
    rw [heq] at hbytes
    exact hne (by simpa using hbytes)

end Recognizer
end GuidedDecoding
