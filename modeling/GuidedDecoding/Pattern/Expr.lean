import GuidedDecoding.Pattern.Syntax
import GuidedDecoding.Text.Utf8

/-!
# Expressions over bytes

The expressions that patterns stand for. They match sequences of bytes: a set of characters matches the
bytes of one of them, and what is left of it inside a character is an expression too. A condition matches
no bytes; whether it holds at a position is settled by the bytes on both sides of the position.

`Expr.step` is the derivative of an expression by a byte, as the list of what may follow.
-/

namespace GuidedDecoding.Pattern

/-- A condition on a position between two bytes. -/
inductive Look where
  | textStart
  | textEnd
  /-- A line starts; `crlf` says that `\r` ends lines as well as `\n`, and `\r\n` ends one. -/
  | lineStart (crlf : Bool)
  | lineEnd (crlf : Bool)
  | word (edge : WordEdge)
  /-- An edge of a Unicode word, which cannot be decided from single bytes. -/
  | unicodeWord (edge : WordEdge)
  deriving DecidableEq, Repr

/-- The bytes on both sides of a position; at an end of the text there is none. -/
structure Surroundings where
  before : Option UInt8
  after : Option UInt8
  deriving DecidableEq, Repr

/-- Whether a byte is an ASCII word character. -/
def isWordByte (b : UInt8) : Bool := Unicode.ShortClass.word.ascii.contains b.toNat

def WordEdge.holds (edge : WordEdge) (around : Surroundings) : Bool :=
  let before := around.before.any isWordByte
  let after := around.after.any isWordByte
  match edge with
  | .boundary => before != after
  | .noBoundary => before == after
  | .start => !before && after
  | .finish => before && !after
  | .startHalf => !before
  | .finishHalf => !after

def Look.holds (look : Look) (around : Surroundings) : Bool :=
  let cr : Option UInt8 := some 0x0D
  let lf : Option UInt8 := some 0x0A
  match look with
  | .textStart => around.before.isNone
  | .textEnd => around.after.isNone
  | .lineStart false => around.before.isNone || around.before == lf
  | .lineEnd false => around.after.isNone || around.after == lf
  | .lineStart true =>
    around.before.isNone || around.before == lf || (around.before == cr && around.after != lf)
  | .lineEnd true =>
    around.after.isNone || around.after == cr || (around.after == lf && around.before != cr)
  | .word edge => edge.holds around
  -- Expressions that are walked have no such condition; see `isBytewise`.
  | .unicodeWord _ => false

inductive Expr where
  /-- No bytes. -/
  | empty
  /-- The bytes of a character of the set that are still to come. -/
  | chars (set : CharSet) (reading : Utf8.Reading)
  | look (look : Look)
  | seq (first second : Expr)
  | alt (left right : Expr)
  /-- At least `min` and at most `max` times. -/
  | rep (body : Expr) (min : Nat) (max : Option Nat)
  deriving DecidableEq

namespace Expr

def ofSet (set : CharSet) : Expr := .chars set .between

/-- No match at all. -/
def never : Expr := ofSet .empty

/-- A repetition; one of at most no times matches nothing but the empty text. -/
def repetition (body : Expr) (min : Nat) (max : Option Nat) : Expr :=
  if max = some 0 then .empty else .rep body min max

def andThen : Expr → Expr → Expr
  | .empty, next => next
  | e, .empty => e
  | e, next => .seq e next

def concat (es : List Expr) : Expr := es.foldr andThen .empty

def choice : List Expr → Expr
  | [] => never
  | [e] => e
  | e :: rest => .alt e (choice rest)

/-- Whether no condition needs more than single bytes. -/
def isBytewise : Expr → Bool
  | .empty | .chars _ _ => true
  | .look (.unicodeWord _) => false
  | .look _ => true
  | .seq a b | .alt a b => a.isBytewise && b.isBytewise
  | .rep a _ _ => a.isBytewise

def acceptsEmpty (around : Surroundings) : Expr → Bool
  | .empty => true
  | .chars _ _ => false
  | .look l => l.holds around
  | .seq a b => a.acceptsEmpty around && b.acceptsEmpty around
  | .alt a b => a.acceptsEmpty around || b.acceptsEmpty around
  | .rep a min _ => min == 0 || a.acceptsEmpty around

/-- What may be left of a set of characters after a byte. -/
def stepChars (set : CharSet) (reading : Utf8.Reading) (b : UInt8) : List Expr :=
  match reading.accept b with
  | .more next => if set.meets next.range.1 next.range.2 then [.chars set next] else []
  | .char c => if c ∈ set then [.empty] else []
  | .refused => []

/-- What may be left of an expression after the byte `b`, where `before` is the byte before it. A
repetition whose body may be empty here can have spent any number of times on nothing. -/
def step (before : Option UInt8) (b : UInt8) : Expr → List Expr
  | .empty => []
  | .look _ => []
  | .chars set reading => stepChars set reading b
  | .seq first second =>
    let through := (first.step before b).map (·.andThen second)
    if first.acceptsEmpty ⟨before, some b⟩ then through ++ second.step before b else through
  | .alt left right => left.step before b ++ right.step before b
  | .rep body min max =>
    if max = some 0 then []
    else
      let min := if body.acceptsEmpty ⟨before, some b⟩ then 0 else min - 1
      (body.step before b).map (·.andThen (repetition body min (max.map (· - 1))))

end Expr

end GuidedDecoding.Pattern
