import GuidedDecoding.Matcher
import GuidedDecoding.Proofs.Recognizer

/-!
# Matchers under any calls

`Reachable` collects the matchers that a new one becomes by any sequence of calls. All of them keep their
lexicon and constraint, and their recognizer follows that constraint over that lexicon (`Reachable.bound`). So the
constraint can be bound once more, and starting over never fails (`Bound.exists_reset`).

In each of them `mask` and `accept` are two views of one set: an id is in the mask exactly when offering it
would not be rejected (`mem_mask_iff_accept`).
-/

namespace GuidedDecoding

theorem Constraint.ofPattern_eq_ok_iff {text : String} {c : Constraint} :
    Constraint.ofPattern text = .ok c ↔ ∃ p, Pattern.ofText? text = some p ∧ c = .pattern p := by
  unfold Constraint.ofPattern
  cases Pattern.ofText? text <;> simp [eq_comm]

theorem ofText?_of_ofPattern {p : Pattern} {text : String} (h : Constraint.ofPattern text = .ok (.pattern p)) :
    Pattern.ofText? text = some p := by
  obtain ⟨p', hp, hsame⟩ := Constraint.ofPattern_eq_ok_iff.mp h
  cases hsame
  exact hp

/-! ### Recognizers that follow a constraint -/

/-- The recognizer is one of the constraint over the lexicon, and has taken in these bytes if the constraint
is a pattern. -/
def Recognizer.Follows (r : Recognizer) (l : Lexicon) (c : Constraint) (bytes : Bytes) : Prop :=
  r.lexicon = l ∧
    match c with
    | .free => r.progress = .free
    | .pattern p => ∃ table, l.table = .ok table ∧ r.progress = .walk table (p.start.run bytes)

namespace Recognizer

variable {r next : Recognizer} {l : Lexicon} {c : Constraint} {p : Pattern} {bytes : Bytes}
  {id : TokenId} {v : Verdict}

/-- A bound constraint has taken in nothing. -/
theorem follows_of_bind (h : c.bind l = .ok r) : r.Follows l c [] ∧ r.stopped = false := by
  cases c with
  | free =>
    cases h
    exact ⟨⟨rfl, rfl⟩, rfl⟩
  | pattern p =>
    unfold Constraint.bind at h
    cases ht : l.table with
    | error e =>
      simp only [ht] at h
      cases h
    | ok table =>
      simp only [ht] at h
      cases h
      exact ⟨⟨rfl, table, ht, rfl⟩, rfl⟩

/-- The bytes of a walk are those of the lexicon. -/
theorem Follows.table_eq (h : r.Follows l c bytes) {table : Array Bytes} {walk : Pattern.Walk}
    (hw : r.progress = .walk table walk) : l.table = .ok table := by
  obtain ⟨-, h⟩ := h
  cases c with
  | free =>
    rw [hw] at h
    cases h
  | pattern p =>
    obtain ⟨table', htable, hp⟩ := h
    rw [hw] at hp
    cases hp
    exact htable

theorem Follows.stop (h : r.Follows l c bytes) (stopped : Bool) :
    Follows { r with stopped := stopped } l c bytes := h

/-- Without a pattern the bytes do not matter. -/
theorem Follows.of_free (h : r.Follows l c bytes) (hfree : r.progress = .free) (bytes' : Bytes) :
    r.Follows l c bytes' := by
  obtain ⟨hl, h⟩ := h
  refine ⟨hl, ?_⟩
  cases c with
  | free => exact h
  | pattern p =>
    obtain ⟨table, -, hp⟩ := h
    rw [hfree] at hp
    cases hp

theorem Follows.outcome_free (h : r.Follows l .free bytes) (ho : Outcome r id next v) :
    next.Follows l .free bytes := by
  cases ho with
  | rejected => exact h
  | stop => exact h.stop true
  | free => exact h
  | grows _ _ hw => cases hw.symm.trans h.2
  | spent _ _ hw => cases hw.symm.trans h.2

/-- A recognizer that accepts a token follows the bytes that the token adds to the text. -/
theorem Follows.outcome (h : r.Follows l c bytes) {table : Array Bytes} (ht : l.table = .ok table)
    (ho : Outcome r id next v) (hv : v ≠ .rejected) :
    next.Follows l c (bytes ++ l.contribution table id) := by
  -- The same walk is behind a token that is taken, whether or not the text ends with it.
  have hgrown {table' : Array Bytes} {walk : Pattern.Walk} {bs : Bytes}
      (hstop : r.lexicon.isStop id = false) (hw : r.progress = .walk table' walk)
      (hb : table'[id.toNat]? = some bs) :
      Follows { r with progress := .walk table' (walk.run bs) } l c
        (bytes ++ l.contribution table id) := by
    obtain rfl : table' = table := by
      rw [h.table_eq hw] at ht
      simpa using ht
    obtain ⟨hl, h⟩ := h
    refine ⟨hl, ?_⟩
    cases c with
    | free =>
      rw [hw] at h
      cases h
    | pattern p =>
      obtain ⟨table'', -, hp⟩ := h
      rw [hw] at hp
      cases hp
      rw [hl] at hstop
      refine ⟨table', ht, ?_⟩
      rw [Pattern.Walk.run_append, Lexicon.contribution_of_not_isStop hstop hb]
  cases ho with
  | rejected => exact absurd rfl hv
  | stop _ hstop =>
    rw [h.1] at hstop
    rw [Lexicon.contribution_of_isStop hstop, List.append_nil]
    exact h.stop true
  | free _ _ hfree => exact h.of_free hfree _
  | grows _ hstop hw hb => exact hgrown hstop hw hb
  | spent _ hstop hw hb => exact (hgrown hstop hw hb).stop true

/-- Under a pattern a stop token is accepted where the text matches, any other token where its bytes keep the
walk alive, and the text matches when it ends. -/
theorem Follows.walk_outcome (h : r.Follows l (.pattern p) bytes) {table : Array Bytes}
    (ht : l.table = .ok table) (ho : Outcome r id next v) (hv : v ≠ .rejected) :
    (id ∉ l.stop → (p.start.run (bytes ++ l.contribution table id)).isAlive = true) ∧
      (id ∈ l.stop → v = .terminal) ∧
      (v = .terminal → (p.start.run (bytes ++ l.contribution table id)).isComplete = true) := by
  obtain ⟨rfl, table', ht', hwalk⟩ := h
  rw [ht, Except.ok.injEq] at ht'
  subst ht'
  cases ho with
  | rejected => exact absurd rfl hv
  | stop hpermits hstop =>
    rw [Lexicon.contribution_of_isStop hstop, List.append_nil]
    refine ⟨fun hid => absurd (Lexicon.isStop_iff.mp hstop) hid, fun _ => rfl, ?_⟩
    intro _
    -- It was permitted, and of a stop token that says that the walk is complete.
    unfold permits at hpermits
    rw [hwalk, Bool.and_eq_true] at hpermits
    have hcomplete := hpermits.2
    dsimp only at hcomplete
    cases hb : table[id.toNat]? with
    | none =>
      rw [hb] at hcomplete
      cases hcomplete
    | some bs =>
      rw [hb] at hcomplete
      dsimp only at hcomplete
      rwa [hstop, if_pos rfl] at hcomplete
  | free _ _ hfree => cases hfree.symm.trans hwalk
  | grows _ hstop hw hb halive =>
    cases hw.symm.trans hwalk
    rw [Lexicon.contribution_of_not_isStop hstop hb, Pattern.Walk.run_append]
    refine ⟨fun _ => halive, ?_, fun hterminal => nomatch hterminal⟩
    intro hid
    rw [Lexicon.isStop_iff.mpr hid] at hstop
    cases hstop
  | spent _ hstop hw hb halive _ hcomplete =>
    cases hw.symm.trans hwalk
    rw [Lexicon.contribution_of_not_isStop hstop hb, Pattern.Walk.run_append]
    exact ⟨fun _ => halive, fun _ => rfl, fun _ => hcomplete⟩

end Recognizer

/-! ### Calls -/

namespace Matcher

inductive Call where
  | accept (id : TokenId)
  | reset
  | mask
  /-- The permitted tokens in place of a mask of any size and contents. -/
  | fill (buffer : TokenMask)

inductive Answer where
  | verdict (v : Verdict)
  | mask (m : TokenMask)
  | done
  | failed (e : Failure)

def call (m : Matcher) : Call → Matcher × Answer
  | .accept id => ((m.accept id).1, .verdict (m.accept id).2)
  | .reset => match m.reset with
    | .ok start => (start, .done)
    | .error e => (m, .failed e)
  | .mask => (m, .mask m.mask)
  | .fill buffer => (m, .mask (m.fill buffer))

/-- The matchers that a new one becomes by any calls. -/
inductive Reachable (l : Lexicon) (c : Constraint) : Matcher → Prop where
  | start {m : Matcher} : Matcher.start l c = .ok m → Reachable l c m
  | call {m : Matcher} (q : Call) : Reachable l c m → Reachable l c (m.call q).1

/-- The matcher is one of the constraint over the lexicon. -/
structure Bound (l : Lexicon) (c : Constraint) (m : Matcher) : Prop where
  lexicon_eq : m.lexicon = l
  constraint_eq : m.constraint = c
  stop_lt : ∀ id ∈ l.stop, id.toNat < l.size
  follows : ∃ bytes, m.recognizer.Follows l c bytes

variable {l : Lexicon} {c : Constraint} {m next start : Matcher} {id : TokenId} {v : Verdict}

/-- Starting succeeds when every stop token has a slot and the constraint can be bound. -/
theorem start_eq_ok (h : Matcher.start l c = .ok m) :
    (∀ id ∈ l.stop, id.toNat < l.size) ∧
      ∃ r, c.bind l = .ok r ∧ m = { lexicon := l, constraint := c, recognizer := r } := by
  unfold Matcher.start at h
  cases hstray : strayStop? l with
  | some id =>
    simp only [hstray] at h
    cases h
  | none =>
    simp only [hstray] at h
    cases hr : c.bind l with
    | error e =>
      rw [hr] at h
      cases h
    | ok r =>
      rw [hr] at h
      cases h
      refine ⟨?_, r, rfl, rfl⟩
      intro id hid
      have hnone := List.find?_eq_none.mp hstray id hid
      simpa using hnone

/-- A matcher starts if every stop token is in the lexicon and the constraint can be bound. -/
theorem exists_start_iff :
    (∃ m, Matcher.start l c = .ok m) ↔ (∀ id ∈ l.stop, id.toNat < l.size) ∧ ∃ r, c.bind l = .ok r := by
  constructor
  · rintro ⟨m, hm⟩
    obtain ⟨hstop, r, hr, -⟩ := start_eq_ok hm
    exact ⟨hstop, r, hr⟩
  · rintro ⟨hstop, r, hr⟩
    have hstray : strayStop? l = none := by
      apply List.find?_eq_none.mpr
      intro id hid
      simpa using hstop id hid
    unfold Matcher.start
    rw [hstray, hr]
    exact ⟨_, rfl⟩

theorem bound_of_start (h : Matcher.start l c = .ok m) : Bound l c m := by
  obtain ⟨hstop, r, hr, rfl⟩ := start_eq_ok h
  exact ⟨rfl, rfl, hstop, [], (Recognizer.follows_of_bind hr).1⟩

/-- Everything that offering a token can do: the matcher behind it and the answer. -/
inductive Outcome (m : Matcher) (id : TokenId) : Matcher → Verdict → Prop where
  | rejected : m.terminated = true ∨ m.lexicon.size ≤ id.toNat ∨ m.recognizer.permits id = false →
      Outcome m id m .rejected
  | accepted {r : Recognizer} {v : Verdict} : m.terminated = false → id.toNat < m.lexicon.size →
      Recognizer.Outcome m.recognizer id r v → v ≠ .rejected →
      Outcome m id
        { m with recognizer := r, terminated := decide (v = .terminal), accepted := m.accepted + 1 } v

/-- Offering a token does one of these things and nothing else. -/
theorem accept_outcome (m : Matcher) (id : TokenId) :
    Outcome m id (m.accept id).1 (m.accept id).2 := by
  unfold Matcher.accept
  by_cases hrefused : m.terminated = true ∨ m.lexicon.size ≤ id.toNat
  · rw [if_pos (by simpa using hrefused)]
    exact .rejected (hrefused.imp_right Or.inl)
  · rw [if_neg (by simpa using hrefused)]
    rw [not_or, Bool.not_eq_true, Nat.not_le] at hrefused
    obtain ⟨hopen, hlt⟩ := hrefused
    have houtcome := Recognizer.accept_outcome m.recognizer id
    have hpermits := Recognizer.accept_ne_rejected_iff m.recognizer id
    have hsame := @Recognizer.accept_of_rejected m.recognizer id
    rcases hanswer : m.recognizer.accept id with ⟨r, v⟩
    rw [hanswer] at houtcome hpermits hsame
    dsimp only at houtcome hpermits hsame
    cases v with
    | rejected =>
      -- The matcher takes over what its recognizer has become, which is what it was.
      rw [hsame rfl]
      exact .rejected (Or.inr (Or.inr (by simpa using hpermits)))
    | terminal => exact .accepted hopen hlt houtcome (by decide)
    | continues =>
      -- The matcher keeps its flag, which is not set.
      have h := Outcome.accepted hopen hlt houtcome (by decide)
      simpa [hopen] using h

/-- A token is accepted while the text goes on, if it has a slot and the recognizer permits it. -/
theorem accept_ne_rejected_iff (m : Matcher) (id : TokenId) :
    (m.accept id).2 ≠ .rejected ↔
      m.terminated = false ∧ id.toNat < m.lexicon.size ∧ m.recognizer.permits id = true := by
  have houtcome := accept_outcome m id
  generalize (m.accept id).1 = next, (m.accept id).2 = v at houtcome ⊢
  cases houtcome with
  | rejected hwhy =>
    constructor
    · intro hne
      exact absurd rfl hne
    · rintro ⟨ht, hlt, hp⟩
      rcases hwhy with h' | h' | h'
      · rw [ht] at h'
        cases h'
      · omega
      · rw [hp] at h'
        cases h'
  | accepted ht hlt ho hv =>
    -- Whatever it does with the token, a recognizer that takes it permits it.
    refine ⟨fun _ => ⟨ht, hlt, ?_⟩, fun _ => hv⟩
    cases ho with
    | rejected => exact absurd rfl hv
    | stop hp => exact hp
    | free hp => exact hp
    | grows hp => exact hp
    | spent hp => exact hp

/-- A token that is rejected changes nothing. -/
theorem accept_of_rejected (h : (m.accept id).2 = .rejected) : (m.accept id).1 = m := by
  have houtcome := accept_outcome m id
  rw [h] at houtcome
  generalize (m.accept id).1 = next at houtcome ⊢
  cases houtcome with
  | rejected => rfl
  | accepted _ _ _ hv => exact absurd rfl hv

/-- The recognizer of a matcher that accepts a token has accepted it. -/
theorem recognizer_accept (hv : (m.accept id).2 ≠ .rejected) :
    Recognizer.Outcome m.recognizer id (m.accept id).1.recognizer (m.accept id).2 := by
  have houtcome := accept_outcome m id
  generalize (m.accept id).1 = next, (m.accept id).2 = v at houtcome hv ⊢
  cases houtcome with
  | rejected => exact absurd rfl hv
  | accepted _ _ ho => exact ho

/-- Offering a token leaves the lexicon as it is. -/
theorem lexicon_accept (m : Matcher) (id : TokenId) : (m.accept id).1.lexicon = m.lexicon := by
  have houtcome := accept_outcome m id
  generalize (m.accept id).1 = next, (m.accept id).2 = v at houtcome ⊢
  cases houtcome <;> rfl

/-- The matcher behind several tokens that are offered. -/
def acceptAll (m : Matcher) (ids : List TokenId) : Matcher := ids.foldl (fun m id => (m.accept id).1) m

theorem acceptAll_concat (m : Matcher) (ids : List TokenId) (id : TokenId) :
    m.acceptAll (ids ++ [id]) = ((m.acceptAll ids).accept id).1 := by
  rw [acceptAll, List.foldl_append]
  rfl

theorem lexicon_acceptAll (m : Matcher) (ids : List TokenId) : (m.acceptAll ids).lexicon = m.lexicon := by
  induction ids generalizing m with
  | nil => rfl
  | cons id ids ih => exact (ih (m.accept id).1).trans (m.lexicon_accept id)

/-- Offering a token leaves the matcher with its lexicon and its constraint. -/
theorem Bound.accept (h : Bound l c m) (id : TokenId) : Bound l c (m.accept id).1 := by
  have houtcome := accept_outcome m id
  generalize (m.accept id).1 = next, (m.accept id).2 = v at houtcome ⊢
  cases houtcome with
  | rejected => exact h
  | accepted _ _ ho hv =>
    refine ⟨h.lexicon_eq, h.constraint_eq, h.stop_lt, ?_⟩
    obtain ⟨bytes, hfollows⟩ := h.follows
    cases c with
    | free => exact ⟨bytes, hfollows.outcome_free ho⟩
    | pattern p =>
      obtain ⟨table, ht, -⟩ := hfollows.2
      exact ⟨_, hfollows.outcome ht ho hv⟩

theorem bind_eq_ok {p : Pattern} {table : Array Bytes} (ht : l.table = .ok table) :
    Constraint.bind (.pattern p) l = .ok { lexicon := l, progress := .walk table p.start } := by
  unfold Constraint.bind
  rw [ht]

/-- The constraint of a matcher has been bound, so it can be bound again. -/
theorem Bound.bind (h : Bound l c m) : ∃ r, c.bind l = .ok r := by
  obtain ⟨bytes, hfollows⟩ := h.follows
  cases c with
  | free => exact ⟨_, rfl⟩
  | pattern p =>
    obtain ⟨table, ht, -⟩ := hfollows.2
    exact ⟨_, bind_eq_ok ht⟩

/-- A matcher that is reset is the new one again. -/
theorem Bound.reset_eq (h : Bound l c m) (hstart : Matcher.start l c = .ok start) : m.reset = .ok start := by
  obtain ⟨-, r, hr, rfl⟩ := start_eq_ok hstart
  unfold Matcher.reset
  rw [h.constraint_eq, h.lexicon_eq, hr]
  rfl

/-- A reset cannot fail: what was checked when the matcher was started has not changed. -/
theorem Bound.exists_reset (h : Bound l c m) : ∃ start, Matcher.start l c = .ok start ∧ m.reset = .ok start := by
  obtain ⟨start, hstart⟩ := exists_start_iff.mpr ⟨h.stop_lt, h.bind⟩
  exact ⟨start, hstart, h.reset_eq hstart⟩

/-- A matcher that starts over is one that starts. -/
theorem Bound.start_of_reset (h : Bound l c m) (hreset : m.reset = .ok next) : Matcher.start l c = .ok next := by
  obtain ⟨start, hstart, hsame⟩ := h.exists_reset
  cases hreset.symm.trans hsame
  exact hstart

/-- The answer to a reset is that it is done. -/
theorem Bound.call_reset (h : Bound l c m) (hstart : Matcher.start l c = .ok start) :
    m.call .reset = (start, .done) := by
  unfold call
  rw [h.reset_eq hstart]

/-- No call takes a matcher away from its lexicon and its constraint. -/
theorem Bound.call (h : Bound l c m) (q : Call) : Bound l c (m.call q).1 := by
  cases q with
  | accept id => exact h.accept id
  | reset =>
    obtain ⟨start, hstart, -⟩ := h.exists_reset
    rw [h.call_reset hstart]
    exact bound_of_start hstart
  | mask => exact h
  | fill buffer => exact h

/-- Whatever is asked of a matcher, it stays one of its constraint over its lexicon. -/
theorem Reachable.bound (h : Reachable l c m) : Bound l c m := by
  induction h with
  | start h => exact bound_of_start h
  | call q _ ih => exact ih.call q

/-! ### The mask and the answers -/

/-- What was in the buffer does not matter, nor its size. -/
theorem fill_eq_mask (m : Matcher) (buffer : TokenMask) : m.fill buffer = m.mask := by
  have hsize : ∀ b : TokenMask,
      (if b.size = m.lexicon.size then b else .none m.lexicon.size).size = m.lexicon.size := by
    intro b
    split
    · assumption
    · rfl
  unfold mask fill
  cases m.terminated with
  | true => simp [hsize]
  | false => exact m.recognizer.fill_congr ((hsize buffer).trans (hsize _).symm)

/-- The mask of a text that has not ended holds the tokens that are permitted. -/
theorem mem_mask (h : Bound l c m) :
    id ∈ m.mask ↔ m.terminated = false ∧ id.toNat < l.size ∧ m.recognizer.permits id = true := by
  obtain ⟨bytes, hfollows⟩ := h.follows
  have hlexicon : m.recognizer.lexicon = l := hfollows.1
  unfold mask fill
  rw [h.lexicon_eq, TokenMask.size_none, if_pos rfl]
  cases m.terminated with
  | true => simp
  | false =>
    rw [if_neg Bool.false_ne_true, Recognizer.mem_fill (by rw [hlexicon]; rfl), hlexicon]
    simp

/-- An id is in the mask exactly when offering it would not be rejected. -/
theorem mem_mask_iff_accept (h : Bound l c m) : id ∈ m.mask ↔ (m.accept id).2 ≠ .rejected := by
  rw [mem_mask h, accept_ne_rejected_iff, h.lexicon_eq]

/-- An id in the mask has a slot, and it is a stop token or has bytes. -/
theorem bytesOf_ne_nil_of_mem_mask (h : Bound l c m) (hid : id ∈ m.mask) {s : String}
    (hs : l.vocabulary.surface? id = some s) (hstop : id ∉ l.stop) : l.bytesOf id s ≠ .ok [] := by
  obtain ⟨bytes, hfollows⟩ := h.follows
  obtain ⟨-, -, hp⟩ := (mem_mask h).mp hid
  have hl : m.recognizer.lexicon = l := hfollows.1
  have hne := Recognizer.bytes_of_permits hp
    (fun table walk hw => by rw [hl]; exact hfollows.table_eq hw)
    (by rw [hl]; exact hs) (by rw [hl]; simpa [Lexicon.isStop] using hstop)
  rwa [hl] at hne

/-- No special token is in a mask. -/
theorem not_mem_special_of_mem_mask (h : Bound l c m) (hid : id ∈ m.mask) : id ∉ l.special := by
  intro hspecial
  have hlt : id.toNat < l.vocabulary.surfaces.size := ((mem_mask h).mp hid).2.1
  exact bytesOf_ne_nil_of_mem_mask h hid (Array.getElem?_eq_getElem hlt)
    (l.special_not_stop id hspecial) (Lexicon.bytesOf_special hspecial _)

end Matcher
end GuidedDecoding
