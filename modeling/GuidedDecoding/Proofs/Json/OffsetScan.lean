import GuidedDecoding.Proofs.Json.Offset

/-!
# The repair of a document by offsets

`OffsetScan` repairs an unfinished document by its bytes: it holds the offset that it has come to, jumps over
strings and literals, and cuts the text at the offsets it has noted. Each step but the last moves on
(`position_lt_of_step`), so there are finitely many.

The text is cut with `slice?`, which has no answer at an offset that is not between two characters; then a step
has none, and neither has the whole (`run`).
-/

namespace GuidedDecoding.Json

open Repair (isLiteral)
open Utf8 (bytesOf byteLength charOf slice?)

namespace OffsetScan

inductive Expect where
  | value
  | key
  | colon
  | commaOrClose
  deriving DecidableEq, Repr

structure Mark where
  position : Nat
  /-- What closes the open containers, innermost first. -/
  closers : List Char
  started : Bool
  deriving DecidableEq, Repr

inductive Ending where
  /-- At the last place at which it could be closed, if there is one. -/
  | marked (mark : Option Mark)
  /-- In an open string. -/
  | openText (cut : Nat) (closers : List Char)
  deriving DecidableEq, Repr

end OffsetScan

structure OffsetScan where
  position : Nat := 0
  closers : List Char := []
  expect : OffsetScan.Expect := .value
  started : Bool := false
  mark : Option OffsetScan.Mark := none
  deriving DecidableEq, Repr

namespace OffsetScan

inductive Next where
  | more (s : OffsetScan)
  | done (e : Ending)
  deriving DecidableEq, Repr

def halt (s : OffsetScan) : Next := .done (.marked s.mark)

def enter (s : OffsetScan) (closer : Char) (expect : Expect) : Next :=
  let started := s.started || !s.closers.isEmpty
  .more {
    position := s.position + 1
    closers := closer :: s.closers
    expect := expect
    started := started
    mark := some ⟨s.position + 1, closer :: s.closers, started⟩ }

def complete (s : OffsetScan) (e : Nat) : Next :=
  if s.closers.isEmpty then .done (.marked (some ⟨e, s.closers, true⟩))
  else .more { s with
    position := e
    expect := .commaOrClose
    started := true
    mark := some ⟨e, s.closers, true⟩ }

def leave (s : OffsetScan) : Next :=
  match s.closers with
  | [] | [_] => .done (.marked (some ⟨s.position + 1, [], true⟩))
  | _ :: closers => .more { s with
      position := s.position + 1
      closers := closers
      expect := .commaOrClose
      mark := some ⟨s.position + 1, closers, s.started⟩ }

/-- A literal that begins at the offset, or a character that begins no value; nothing if the text cannot be cut around
it. -/
def literal (cs : List Char) (s : OffsetScan) : Option Next :=
  let e := literalEnd (bytesOf cs) s.position
  if e = (bytesOf cs).length then some s.halt
  else (slice? cs s.position e).map fun word => if isLiteral word then s.complete e else s.halt

def look (cs : List Char) (s : OffsetScan) (c : Char) : Option Next :=
  if Repair.isBlank c then some (.more { s with position := s.position + 1 })
  else
    match s.expect with
    | .value =>
      if c = '{' then some (s.enter '}' .key)
      else if c = '[' then some (s.enter ']' .value)
      else if c = ']' ∧ s.closers.head? = some ']' then some s.leave
      else if c = '"' then
        match stringEnd? (bytesOf cs) (s.position + 1) with
        | some e => some (s.complete e)
        | none => some (.done (.openText (bodyEnd (bytesOf cs) (s.position + 1)) s.closers))
      else s.literal cs
    | .key =>
      if c = '"' then
        match stringEnd? (bytesOf cs) (s.position + 1) with
        | some e => some (.more { s with position := e, expect := .colon })
        | none => some s.halt
      else if c = '}' ∧ s.closers.head? = some '}' then some s.leave
      else some s.halt
    | .colon =>
      if c = ':' then some (.more { s with position := s.position + 1, expect := .value }) else some s.halt
    | .commaOrClose =>
      if c = ',' then
        some (.more { s with
          position := s.position + 1
          expect := if s.closers.head? = some '}' then .key else .value })
      else if (c = '}' ∨ c = ']') ∧ s.closers.head? = some c then some s.leave
      else some s.halt

def step (cs : List Char) (s : OffsetScan) : Option Next :=
  match (bytesOf cs)[s.position]? with
  | some b => s.look cs (charOf b)
  | none => some s.halt

variable {cs : List Char} {s s' : OffsetScan} {c : Char}

theorem position_lt_of_complete {e : Nat} (he : s.position < e) (h : s.complete e = .more s') :
    s.position < s'.position := by
  unfold complete at h
  split at h
  · cases h
  · cases h
    exact he

theorem position_lt_of_leave (h : s.leave = .more s') : s.position < s'.position := by
  unfold leave at h
  split at h
  · cases h
  · cases h
  · cases h
    exact Nat.lt_succ_self _

theorem position_lt_of_literal (h : s.literal cs = some (.more s')) : s.position < s'.position := by
  simp only [literal] at h
  split at h
  · cases h
  · obtain ⟨word, hslice, hnext⟩ := Option.map_eq_some_iff.mp h
    split at hnext
    · next hword =>
      refine position_lt_of_complete ?_ hnext
      -- No value is spelled without a character.
      obtain ⟨front, back, -, hfront, hend⟩ := Utf8.slice?_eq_some_iff.mp hslice
      have hne : word ≠ [] := by
        rintro rfl
        exact absurd hword (by decide)
      have hpos : byteLength word ≠ 0 := mt Utf8.byteLength_eq_zero_iff.mp hne
      rw [Utf8.byteLength_append] at hend
      omega
    · cases hnext

/-- What is done at a byte moves the scanner on, unless it is the last step. -/
theorem position_lt_of_look (h : s.look cs c = some (.more s')) : s.position < s'.position := by
  unfold look at h
  split at h
  · cases h
    exact Nat.lt_succ_self _
  split at h
  · -- At a value.
    split_ifs at h
    · cases h
      exact Nat.lt_succ_self _
    · cases h
      exact Nat.lt_succ_self _
    · exact position_lt_of_leave (Option.some.inj h)
    · split at h
      · next he => exact position_lt_of_complete (Nat.lt_of_succ_lt (lt_of_stringEnd? he)) (Option.some.inj h)
      · cases h
    · exact position_lt_of_literal h
  · -- At a key.
    split_ifs at h
    · split at h
      · next he =>
        cases h
        exact Nat.lt_of_succ_lt (lt_of_stringEnd? he)
      · cases h
    · exact position_lt_of_leave (Option.some.inj h)
    · cases h
  · -- At a colon.
    split_ifs at h
    · cases h
      exact Nat.lt_succ_self _
    · cases h
  · -- At a comma or a bracket.
    split at h
    · cases h
      exact Nat.lt_succ_self _
    split at h
    · exact position_lt_of_leave (Option.some.inj h)
    · cases h

/-- A step that is not the last one is made inside the text and moves on. -/
theorem position_lt_of_step (h : s.step cs = some (.more s')) :
    s.position < s'.position ∧ s.position < (bytesOf cs).length := by
  unfold step at h
  split at h
  · next hget => exact ⟨position_lt_of_look h, (List.getElem?_eq_some_iff.mp hget).1⟩
  · cases h

/-- The text up to an ending, with what closes it there; nothing if the text cannot be cut there. There is no
document before the first value inside the outermost brackets. -/
def Ending.repaired (cs : List Char) : Ending → Option (Option Repaired)
  | .marked none => some none
  | .marked (some m) =>
    if m.started then (slice? cs 0 m.position).map fun kept => some ⟨kept, m.closers⟩ else some none
  | .openText cut closers => (slice? cs 0 cut).map fun kept => some ⟨kept, '"' :: closers⟩

/-- What can be read of the text, from a state of the scanner on; nothing if the text is cut where it cannot be
cut. -/
def run (cs : List Char) (s : OffsetScan) : Option (Option Repaired) :=
  match _h : s.step cs with
  | none => none
  | some (.more s') => run cs s'
  | some (.done e) => e.repaired cs
termination_by (bytesOf cs).length - s.position
decreasing_by
  have := position_lt_of_step _h
  omega

/-- The run goes on behind a step. -/
theorem run_of_more (h : s.step cs = some (.more s')) : run cs s = run cs s' := by
  rw [run]
  split <;> simp_all

/-- The last step says where the text is cut. -/
theorem run_of_done {e : Ending} (h : s.step cs = some (.done e)) : run cs s = e.repaired cs := by
  rw [run]
  split <;> simp_all

/-- The states that the scanner comes to in a text. -/
inductive Visits (cs : List Char) : OffsetScan → Prop
  | start : Visits cs {}
  | step {s s' : OffsetScan} : Visits cs s → s.step cs = some (.more s') → Visits cs s'

end OffsetScan

end GuidedDecoding.Json
