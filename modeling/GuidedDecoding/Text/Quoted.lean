import GuidedDecoding.Unicode.Property

/-!
# Quoted text

A text between quotes on one line. A quote and a backslash stand behind a backslash, some control characters
have names, and every other character that does not show, or would join the one before it, is written by its
number.
-/

namespace GuidedDecoding.Text

open Unicode (Category Property)

/-- The characters that do not show: controls, blanks other than the space, and what has no character. -/
def hidden : CharSet :=
  (Category.sets [.control, .format, .privateUse, .unassigned, .lineSeparator, .paragraphSeparator,
    .spaceSeparator]).diff (.singleton ' ')

def quotedChar (c : Char) : List Char :=
  match c with
  | '"' => ['\\', '"']
  | '\\' => ['\\', '\\']
  | '\n' => ['\\', 'n']
  | '\r' => ['\\', 'r']
  | '\t' => ['\\', 't']
  | '\x00' => ['\\', '0']
  | c =>
    if (' ' ≤ c ∧ c ≤ '~') ∨ !(hidden.contains c.toNat || Property.graphemeExtend.set.contains c.toNat)
    then [c]
    else '\\' :: 'u' :: '\x7b' :: (Nat.toDigits 16 c.toNat ++ ['\x7d'])

def quoted (s : String) : String := String.ofList ('"' :: (s.toList.flatMap quotedChar ++ ['"']))

end GuidedDecoding.Text
