import GuidedDecoding.Failure
import GuidedDecoding.Pattern.Walk

/-!
# Grammars

What generated text may look like. A grammar is compiled before it is used; compiling finds the mistakes
that do not depend on a vocabulary. There is an engine for patterns, none for schemas and context-free
grammars.
-/

namespace GuidedDecoding

/-- What is asked of generated text. -/
inductive Grammar where
  /-- Nothing is asked. -/
  | free
  /-- The whole text matches a pattern. -/
  | pattern (text : String)
  /-- The text is a JSON document of a schema, perhaps indented by this width. -/
  | jsonSchema (schema : String) (indent : Option Nat)
  /-- The text is in the language of a context-free grammar in the Lark format. -/
  | lark (source : String)
  deriving DecidableEq, Repr

/-- A grammar that is ready for use. -/
inductive Constraint where
  | free
  | pattern (pattern : Pattern)
  deriving DecidableEq

def Constraint.ofPattern (text : String) : Except Failure Constraint :=
  match Pattern.ofText? text with
  | some p => .ok (.pattern p)
  | none => .error (.setup .invalidPattern)

namespace Grammar

/-- Whether nothing is asked of the text. -/
def isFree : Grammar → Bool
  | .free => true
  | _ => false

def compile : Grammar → Except Failure Constraint
  | .free => .ok .free
  | .pattern text => Constraint.ofPattern text
  | .jsonSchema _ _ | .lark _ => .error (.setup .unsupportedGrammar)

end Grammar

end GuidedDecoding
