import GuidedDecoding.PartialReader
import GuidedDecoding.Session

/-!
# Runs of a session

Items of a session are taken one by one, all at once, or through a stream. `Session.run` takes items until
there is none or enough; `Session.collect?` runs a session to its end for its completion; and a stream has the
session produce ahead of its reader, no further than its capacity.

A session need not end by itself, so whatever runs one is given how many items to take at most.
-/

namespace GuidedDecoding

/-- An item of a session: a token, or the failure that ended it. -/
abbrev Item := Except Failure Generated

/-- What a run has left: the session and the observer behind it, its items, and whether there is no further
one. -/
structure Run (κ ρ σ : Type) where
  session : Session κ ρ
  seen : σ
  items : List Item
  isOver : Bool

/-- What collecting has left; no result means that the session has not ended yet. -/
structure Collected (κ ρ σ : Type) where
  session : Session κ ρ
  seen : σ
  result : Option (Except Failure Completion)

namespace Session

variable {κ ρ σ : Type}

/-- Takes items until there is none, and at most `limit`. -/
def run (observe : Observer σ) : (limit : Nat) → σ → Session κ ρ → Run κ ρ σ
  | 0, seen, s => ⟨s, seen, [], false⟩
  | limit + 1, seen, s =>
    match s.nextWith observe seen with
    | (s, seen, none) => ⟨s, seen, [], true⟩
    | (s, seen, some item) =>
      let r := run observe limit seen s
      { r with items := item :: r.items }

def items (limit : Nat) (s : Session κ ρ) : List Item := (s.run .silent limit ()).items

def completion (s : Session κ ρ) : Except Failure Completion :=
  match s.stopReason? with
  | none => .error (.model .endedWithoutReason)
  | some reason => do
    return { text := ← s.text, tokens := s.tokens, promptCount := s.input.toList.length,
             generatedCount := s.tokens.length, stopReason := reason }

/-- Runs a session to its end, if that comes within `limit` items: its completion, or the failure that
ended it. -/
def collect? (observe : Observer σ) (limit : Nat) (seen : σ) (s : Session κ ρ) : Collected κ ρ σ :=
  let r := s.run observe limit seen
  -- A failure ends the run, so there is one at most.
  let failure := r.items.findSome? fun item => match item with
    | .error e => some e
    | .ok _ => none
  ⟨r.session, r.seen, match failure with
    | some e => some (.error e)
    | none => if r.isOver then some r.session.completion else none⟩

end Session

/-- The value that the text of a completion is. -/
def Completion.value {α : Type} (reader : Json.Reader α) (c : Completion) : Except Json.Flaw α :=
  Json.read reader c.text

/-- The values along the chunks of some items. -/
def projectItems {α : Type} (reader : Json.Reader α) (items : List Item) : List (Except Failure α) :=
  PartialReader.project reader {} (items.map fun item => item.map (·.chunk))

/-! ### Streams -/

/-- A session that is ahead of the reader of its items. -/
structure ItemStream (κ ρ : Type) where
  session : Session κ ρ
  /-- How many items may wait. -/
  capacity : Nat
  capacity_pos : 0 < capacity
  /-- The items that have been produced and not read. -/
  waiting : List Item := []
  /-- Whether the session has ended. -/
  isFinished : Bool := false

namespace ItemStream

variable {κ ρ : Type}

def ofSession (s : Session κ ρ) (capacity : Nat) : ItemStream κ ρ where
  session := s
  -- With no room at all the session would never be asked for an item.
  capacity := max capacity 1
  capacity_pos := by omega

/-- Has the session produce items until it has ended or `room` more wait. -/
def produce : (room : Nat) → ItemStream κ ρ → ItemStream κ ρ
  | 0, t => t
  | room + 1, t =>
    if t.isFinished then t
    else
      match t.session.next with
      | (session, none) => { t with session, isFinished := true }
      | (session, some item) => produce room { t with session, waiting := t.waiting ++ [item] }

/-- Reads the next item; the session first produces as many as may wait. -/
def next (t : ItemStream κ ρ) : ItemStream κ ρ × Option Item :=
  let t := t.produce (t.capacity - t.waiting.length)
  match t.waiting with
  | [] => (t, none)
  | item :: rest => ({ t with waiting := rest }, some item)

/-- Reads items until there is none, and at most `limit`. -/
def take : (limit : Nat) → ItemStream κ ρ → ItemStream κ ρ × List Item
  | 0, t => (t, [])
  | limit + 1, t =>
    match t.next with
    | (t, none) => (t, [])
    | (t, some item) =>
      let (t, items) := t.take limit
      (t, item :: items)

end ItemStream

end GuidedDecoding
