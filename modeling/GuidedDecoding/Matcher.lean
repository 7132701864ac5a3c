import GuidedDecoding.Recognizer
import GuidedDecoding.Text.Record

/-!
# Matchers

A matcher holds a constraint over a lexicon for one generation. It offers the mask of the permitted tokens
and accepts tokens; after the end of the text it permits none. It counts what it accepted and can start
over.
-/

namespace GuidedDecoding

/-- A constraint in use over a lexicon. -/
structure Matcher where
  lexicon : Lexicon
  constraint : Constraint
  recognizer : Recognizer
  /-- Whether the text has ended. -/
  terminated : Bool := false
  /-- The number of tokens accepted since the start. -/
  accepted : Nat := 0

namespace Matcher

/-- The first stop token that the vocabulary has no slot for. -/
def strayStop? (l : Lexicon) : Option TokenId := l.stop.ids.find? fun id => l.size ≤ id.toNat

/-- The matcher of an empty text. -/
def start (l : Lexicon) (c : Constraint) : Except Failure Matcher :=
  match strayStop? l with
  | some id => .error (.setup (.stopTokenOutside id l.size))
  | none => do
    return { lexicon := l, constraint := c, recognizer := ← c.bind l }

/-- The mask of the permitted tokens in place of `m`, which is resized to the vocabulary. -/
def fill (m : Matcher) (mask : TokenMask) : TokenMask :=
  let mask := if mask.size = m.lexicon.size then mask else .none m.lexicon.size
  if m.terminated then mask.setAll false else m.recognizer.fill mask

def mask (m : Matcher) : TokenMask := m.fill (.none m.lexicon.size)

def accept (m : Matcher) (id : TokenId) : Matcher × Verdict :=
  if m.terminated || m.lexicon.size ≤ id.toNat then (m, .rejected)
  else
    match m.recognizer.accept id with
    | (next, .rejected) => ({ m with recognizer := next }, .rejected)
    | (next, .terminal) =>
      ({ m with recognizer := next, terminated := true, accepted := m.accepted + 1 }, .terminal)
    | (next, .continues) =>
      ({ m with recognizer := next, accepted := m.accepted + 1 }, .continues)

/-- The matcher of an empty text again, for which the constraint is bound once more. -/
def reset (m : Matcher) : Except Failure Matcher := do
  return { m with recognizer := ← m.constraint.bind m.lexicon, terminated := false, accepted := 0 }

/-- A matcher in words, with its pattern if it has one. -/
def describe (m : Matcher) : String :=
  let grammar := match m.constraint with
    | .free => "Unconstrained"
    | .pattern p => p.text
  Text.record "GrammarMatcher"
    [("grammar", grammar), ("vocab_size", toString m.lexicon.size),
     ("terminated", toString m.terminated), ("num_accepted", toString m.accepted)]

end Matcher

end GuidedDecoding
