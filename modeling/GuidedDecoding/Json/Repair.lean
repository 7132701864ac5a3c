import GuidedDecoding.Json.Value

/-!
# Documents that are still being written

A generated document is worth reading before it is complete. `repair` keeps the longest part of a text
that ends with a value or with an opening bracket, or all of an open string but a cut-off escape, and
closes what is open there. A key without value, a separator and a word or numeral that may still go on
are left out. There is nothing to read before the first value inside the outermost brackets.

The scanner knows JSON only roughly. It tells brackets, strings, separators and literals apart, and
halts at the first character that fits nowhere; a literal must be a JSON value once a character ends
it. It is a machine over single characters, so `Repair.feed` serves texts that come in chunks.
-/

namespace GuidedDecoding.Json

/-- The part of a text that is kept, and what closes it. -/
structure Repaired where
  kept : List Char
  closing : List Char
  deriving DecidableEq, Repr

def Repaired.text (r : Repaired) : String := String.ofList (r.kept ++ r.closing)

namespace Repair

/-- The characters that the scanner passes over between tokens. -/
def isBlank (c : Char) : Bool := c = ' ' || c = '\t' || c = '\n' || c = '\x0C' || c = '\r'

def endsLiteral (c : Char) : Bool := isBlank c || c = ',' || c = '}' || c = ']' || c = ':'

inductive BodyPhase where
  /-- Not in an escape. -/
  | whole
  /-- Behind the backslash of an escape. -/
  | backslash
  /-- Inside a numeric escape of which this many bytes are to come. -/
  | numeric (owed : Nat)
  deriving DecidableEq, Repr

/-- One more character of the body. A numeric escape is taken to be six bytes long, every other one to
be a backslash and one character. -/
def BodyPhase.feed : BodyPhase → Char → BodyPhase
  | .whole, c => if c = '\\' then .backslash else .whole
  | .backslash, c => if c = 'u' then .numeric 4 else .whole
  | .numeric owed, c => if c.utf8Size < owed then .numeric (owed - c.utf8Size) else .whole

/-- What the scanner is at. -/
inductive Stance where
  | value
  | key
  | colon
  | commaOrClose
  /-- In a key; whether a backslash precedes. -/
  | keyText (escaped : Bool)
  /-- In a string value; `kept` is the text up to the last character outside a cut-off escape, last
  first. -/
  | valueText (escaped : Bool) (phase : BodyPhase) (kept : List Char)
  /-- In a word or numeral with these characters, last first. -/
  | literal (chars : List Char)
  /-- At a character that fits nowhere, or behind the outermost value. -/
  | halted
  deriving DecidableEq, Repr

structure Checkpoint where
  /-- The text up to there, last character first. -/
  kept : List Char
  /-- What closes the open containers, innermost first. -/
  closers : List Char
  /-- Whether there is a value inside the outermost brackets. -/
  started : Bool
  deriving DecidableEq, Repr

end Repair

structure Repair where
  /-- The text so far, last character first. -/
  seen : List Char := []
  closers : List Char := []
  started : Bool := false
  checkpoint : Option Repair.Checkpoint := none
  stance : Repair.Stance := .value
  deriving DecidableEq, Repr

namespace Repair

def mark (r : Repair) : Repair := { r with checkpoint := some ⟨r.seen, r.closers, r.started⟩ }

def enter (r : Repair) (closer : Char) (stance : Stance) : Repair :=
  mark { r with
    started := r.started || !r.closers.isEmpty
    closers := closer :: r.closers
    stance := stance }

def complete (r : Repair) : Repair :=
  mark { r with
    started := true
    stance := if r.closers.isEmpty then .halted else .commaOrClose }

def leave (r : Repair) : Repair :=
  match r.closers with
  | [] | [_] => mark { r with closers := [], started := true, stance := .halted }
  | _ :: closers => mark { r with closers := closers, stance := .commaOrClose }

def begin (r : Repair) (c : Char) : Repair :=
  if c = '{' then r.enter '}' .key
  else if c = '[' then r.enter ']' .value
  -- A bracket may close where a value is due, as it does in an empty array.
  else if c = ']' ∧ r.closers.head? = some ']' then r.leave
  else if c = '"' then { r with stance := .valueText false .whole r.seen }
  else if endsLiteral c then { r with stance := .halted }
  else { r with stance := .literal [c] }

def separate (r : Repair) (c : Char) : Repair :=
  if isBlank c then r
  else if c = ',' then
    { r with stance := if r.closers.head? = some '}' then .key else .value }
  else if (c = '}' ∨ c = ']') ∧ r.closers.head? = some c then r.leave
  else { r with stance := .halted }

def isLiteral (chars : List Char) : Bool := (Value.ofTokens (tokens chars)).toBool

def feed (before : Repair) (c : Char) : Repair :=
  let r := { before with seen := c :: before.seen }
  match r.stance with
  | .halted => r
  | .value => if isBlank c then r else r.begin c
  | .key =>
    if isBlank c then r
    else if c = '"' then { r with stance := .keyText false }
    else if c = '}' ∧ r.closers.head? = some '}' then r.leave
    else { r with stance := .halted }
  | .colon =>
    if isBlank c then r else { r with stance := if c = ':' then .value else .halted }
  | .commaOrClose => r.separate c
  | .keyText escaped =>
    if escaped then { r with stance := .keyText false }
    else if c = '\\' then { r with stance := .keyText true }
    else if c = '"' then { r with stance := .colon }
    else r
  | .valueText escaped phase kept =>
    if c = '"' ∧ !escaped then r.complete
    else
      -- Where an open string can be cut is followed apart from where it ends.
      let phase := phase.feed c
      { r with
        stance := .valueText (!escaped && c = '\\') phase (if phase = .whole then r.seen else kept) }
  | .literal chars =>
    if !endsLiteral c then { r with stance := .literal (c :: chars) }
    else if !isLiteral chars.reverse then { r with stance := .halted }
    else
      -- The literal ends in front of the character, so the mark is set there.
      let done := before.complete
      if done.stance = .halted then { done with seen := r.seen }
      else { done with seen := r.seen }.separate c

def repaired (r : Repair) : Option Repaired :=
  match r.stance with
  | .valueText _ _ kept => some ⟨kept.reverse, '"' :: r.closers⟩
  | _ =>
    match r.checkpoint with
    | some p => if p.started then some ⟨p.kept.reverse, p.closers⟩ else none
    | none => none

def scan (cs : List Char) : Repair := cs.foldl feed {}

end Repair

/-- What can be read of a document that is still being written. -/
def repair (text : String) : Option Repaired := (Repair.scan text.toList).repaired

end GuidedDecoding.Json
