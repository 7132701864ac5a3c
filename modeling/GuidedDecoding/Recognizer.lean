import GuidedDecoding.Grammar
import GuidedDecoding.TokenMask
import GuidedDecoding.Vocabulary.Lexicon

/-!
# Recognizers

A recognizer follows generated text under a constraint, token by token of one lexicon. `permits` says which
tokens may come next, `fill` collects them in a mask, and `accept` takes one.

Without a grammar every token with a surface is permitted that is not special. Under a pattern a token is
permitted when its bytes keep the walk alive, and a stop token when the text so far matches; a token
without bytes never is.
-/

namespace GuidedDecoding

inductive Verdict where
  /-- Accepted; the text may go on. -/
  | continues
  /-- Accepted; the text has ended. -/
  | terminal
  /-- Not permitted here. -/
  | rejected
  deriving DecidableEq, Repr

/-- How far a text has come under a constraint. -/
inductive Progress where
  | free
  /-- The bytes of all tokens, and where the walk of the pattern stands. -/
  | walk (table : Array Bytes) (walk : Pattern.Walk)

/-- A text under a constraint, in tokens of a lexicon. -/
structure Recognizer where
  lexicon : Lexicon
  progress : Progress
  /-- Whether the text has ended. -/
  stopped : Bool := false

/-- The recognizer of the empty text. A pattern needs the bytes of all tokens. -/
def Constraint.bind (c : Constraint) (l : Lexicon) : Except Failure Recognizer :=
  match c with
  | .free => .ok { lexicon := l, progress := .free }
  | .pattern p =>
    match l.table with
    | .ok table => .ok { lexicon := l, progress := .walk table p.start }
    | .error e => .error e

namespace Recognizer

/-- The walk after the bytes of a token, if there are any and they keep it alive. -/
def extend? (walk : Pattern.Walk) (bytes : Bytes) : Option Pattern.Walk :=
  let next := walk.run bytes
  if !bytes.isEmpty && next.isAlive then some next else none

def permits (r : Recognizer) (id : TokenId) : Bool :=
  !r.stopped &&
    match r.progress with
    | .free =>
      !r.lexicon.isSpecial id && (r.lexicon.vocabulary.surface? id).any fun s => !s.isEmpty
    | .walk table walk =>
      match table[id.toNat]? with
      | some bytes =>
        -- A stop token needs a slot, but no bytes.
        if r.lexicon.isStop id then walk.isComplete else (extend? walk bytes).isSome
      | none => false

def candidates (l : Lexicon) : List TokenId := (List.range l.size).map Nat.toUInt32

/-- The mask of the permitted tokens, of the size of `m`. -/
def fill (r : Recognizer) (m : TokenMask) : TokenMask :=
  ((candidates r.lexicon).filter r.permits).foldl TokenMask.insert (m.setAll false)

/-- Whether some token other than a stop token may come next. -/
def continues (r : Recognizer) : Bool :=
  (candidates r.lexicon).any fun id => !r.lexicon.isStop id && r.permits id

/-- Whether a text of a pattern has ended without a stop token: there is none, and nothing else may come. -/
def isSpent (r : Recognizer) : Bool :=
  match r.progress with
  | .free => false
  | .walk _ walk => r.lexicon.stop.isEmpty && walk.isComplete && !r.continues

/-- The text has ended with the token offered last. -/
def finish (r : Recognizer) : Recognizer × Verdict := ({ r with stopped := true }, .terminal)

/-- Offers a token where any may follow. -/
def acceptFree (r : Recognizer) (id : TokenId) : Recognizer × Verdict :=
  if !r.permits id then (r, .rejected)
  else if r.lexicon.isStop id then r.finish
  else (r, .continues)

/-- Offers a token with these bytes where a pattern has come as far as `walk`. -/
def acceptBytes (r : Recognizer) (table : Array Bytes) (walk : Pattern.Walk) (id : TokenId)
    (bytes : Bytes) : Recognizer × Verdict :=
  if r.lexicon.isStop id then
    if walk.isComplete then r.finish else (r, .rejected)
  else
    match extend? walk bytes with
    | none => (r, .rejected)
    | some walk =>
      let next := { r with progress := .walk table walk }
      if next.isSpent then next.finish else (next, .continues)

/-- Offers a token. A token that is rejected changes nothing. -/
def accept (r : Recognizer) (id : TokenId) : Recognizer × Verdict :=
  match r.progress with
  | .free => r.acceptFree id
  | .walk table walk =>
    match table[id.toNat]? with
    | none => (r, .rejected)
    | some bytes => if r.stopped then (r, .rejected) else r.acceptBytes table walk id bytes

end Recognizer

end GuidedDecoding
