import GuidedDecoding.Pattern.Meaning
import GuidedDecoding.Pattern.Reader

/-!
# Walking a pattern byte by byte

A walk keeps all that may be left of a pattern after the bytes so far. It is dead when nothing can be
left. A pattern may end before the text does; a walk past such an end lives for one byte more, because
whether the text ends there is known one byte late.
-/

namespace GuidedDecoding

/-- A pattern that texts are to match from their start to their end. -/
structure Pattern where
  /-- The pattern as it was given. -/
  text : String
  /-- What a text must match. -/
  expr : Pattern.Expr
  deriving DecidableEq

namespace Pattern

/-- The text of the pattern with the condition that the whole text is matched. The text is put in
parentheses as it is, whether or not its own parentheses match. -/
def anchored (text : String) : List Char := "(?:".toList ++ text.toList ++ ")$".toList

/-- The pattern of a text, unless it is badly formed. -/
def ofText? (text : String) : Option Pattern := do
  let tree ← Tree.read? (anchored text)
  return { text, expr := ← tree.expr? }

structure Walk where
  /-- What may be left to match. -/
  residuals : List Expr
  /-- The last byte. -/
  before : Option UInt8 := none
  /-- Whether the pattern may have ended before the last byte. -/
  overrun : Bool := false
  deriving DecidableEq

def start (p : Pattern) : Walk := { residuals := [p.expr] }

namespace Walk

def step (w : Walk) (b : UInt8) : Walk where
  -- Equal residuals are kept once; repetitions would pile them up.
  residuals := (w.residuals.flatMap (·.step w.before b)).eraseDups
  before := some b
  overrun := w.residuals.any (·.acceptsEmpty ⟨w.before, some b⟩)

def run (w : Walk) (bytes : Bytes) : Walk := bytes.foldl step w

theorem run_append (w : Walk) (a b : Bytes) : w.run (a ++ b) = (w.run a).run b :=
  List.foldl_append

/-- Whether anything can be left. -/
def isAlive (w : Walk) : Bool := !w.residuals.isEmpty || w.overrun

/-- Whether the bytes so far match the pattern. -/
def isComplete (w : Walk) : Bool := w.residuals.any (·.acceptsEmpty ⟨w.before, none⟩)

end Walk

end Pattern

end GuidedDecoding
