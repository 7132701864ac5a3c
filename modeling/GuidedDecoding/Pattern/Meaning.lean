import GuidedDecoding.Pattern.Expr
import GuidedDecoding.Unicode.CaseFolding

/-!
# What patterns mean

The expression of a pattern. Switches are threaded through the tree from left to right, and the end of a
group restores those from before it. Without the Unicode switch a pattern must not match bytes that are no
text: it then has no meaning, like a pattern that names an unknown class.
-/

namespace GuidedDecoding.Pattern

/-- The switches that change what a pattern matches. -/
structure Mode where
  ignoreCase : Bool := false
  lines : Bool := false
  dotAll : Bool := false
  unicode : Bool := true
  crlf : Bool := false
  deriving DecidableEq, Repr

namespace Mode

def set (m : Mode) : Switch → Bool → Mode
  | .ignoreCase, on => { m with ignoreCase := on }
  | .lines, on => { m with lines := on }
  | .dotAll, on => { m with dotAll := on }
  | .unicode, on => { m with unicode := on }
  | .crlf, on => { m with crlf := on }
  | .swapGreed, _ | .verbose, _ => m

def apply (m : Mode) (settings : Settings) : Mode :=
  settings.foldl (fun m (switch, on) => m.set switch on) m

/-- A set with the other cases of its characters, if case is ignored. -/
def fold (m : Mode) (s : CharSet) : CharSet :=
  if !m.ignoreCase then s else if m.unicode then s.foldCase else s.foldAsciiCase

/-- A set or its complement. Without Unicode the complement holds bytes that are no text. -/
def negate (m : Mode) (negated : Bool) (s : CharSet) : Option CharSet :=
  if !negated then some s else if m.unicode then some s.compl else none

end Mode

/-- The character of a literal. Without Unicode `\xHH` is a byte, which is a character in ASCII only. -/
def Literal.char? (l : Literal) (m : Mode) : Option Char :=
  if !m.unicode && l.isByte && 0x80 ≤ l.char.toNat then none else some l.char

/-- The character of a literal within brackets, where without Unicode there is nothing but ASCII. -/
def Literal.classChar? (l : Literal) (m : Mode) : Option Char :=
  if !m.unicode && 0x80 ≤ l.char.toNat then none else some l.char

def NamedClass.set? (m : Mode) : NamedClass → Option CharSet
  | .short kind negated => m.negate negated (if m.unicode then kind.set else kind.ascii)
  | .property name negated =>
    -- Case is folded before the complement is taken: the other way round it would bring characters back.
    if m.unicode then (Unicode.namedClass? name).bind fun s => m.negate negated (m.fold s) else none
  | .valued key value negated =>
    if m.unicode then
      (Unicode.valuedClass? key value).bind fun s => m.negate negated (m.fold s)
    else none
  | .ascii set negated => m.negate negated (m.fold set)

def SetOperation.apply : SetOperation → CharSet → CharSet → CharSet
  | .inter, a, b => a ∩ b
  | .diff, a, b => a \ b
  | .symmDiff, a, b => a.symmDiff b

mutual
def ClassTree.set? (m : Mode) : ClassTree → Option CharSet
  | .empty => some .empty
  | .char l => (l.classChar? m).map .singleton
  | .range first last => do
    return .range (← first.classChar? m).toNat (← last.classChar? m).toNat
  | .named n => n.set? m
  | .bracketed negated body => do m.negate negated (m.fold (← body.set? m))
  | .union items => ClassTree.sets? m items
  | .operation op left right => do
    return op.apply (m.fold (← left.set? m)) (m.fold (← right.set? m))

def ClassTree.sets? (m : Mode) : List ClassTree → Option CharSet
  | [] => some .empty
  | t :: rest => do return (← t.set? m) ∪ (← ClassTree.sets? m rest)
end

def Assertion.look (m : Mode) : Assertion → Look
  | .caret => if m.lines then .lineStart m.crlf else .textStart
  | .dollar => if m.lines then .lineEnd m.crlf else .textEnd
  | .textStart => .textStart
  | .textEnd => .textEnd
  | .word edge => if m.unicode then .unicodeWord edge else .word edge

/-- The characters that a dot matches: all, or all but the ends of lines. -/
def dotSet (m : Mode) : CharSet :=
  if m.dotAll then .scalars
  else if m.crlf then (CharSet.ofDisjoint [(0x0A, 0x0A), (0x0D, 0x0D)]).compl
  else (CharSet.range 0x0A 0x0A).compl

mutual
/-- The expression of a tree, and the mode behind it. -/
def Tree.meaning? (m : Mode) : Tree → Option (Expr × Mode)
  | .empty => some (.empty, m)
  | .settings s => some (.empty, m.apply s)
  | .literal l => do return (.ofSet (m.fold (.singleton (← l.char? m))), m)
  -- Without the Unicode switch a dot would match bytes that are no text.
  | .dot => if m.unicode then some (.ofSet (dotSet m), m) else none
  | .assertion a => some (.look (a.look m), m)
  | .named n => do return (.ofSet (← n.set? m), m)
  | .bracketed negated body => do
    return (.ofSet (← m.negate negated (m.fold (← body.set? m))), m)
  | .repetition body min max => do
    let (e, m) ← body.meaning? m
    return (.repetition e min max, m)
  | .group s body => do
    let (e, _) ← body.meaning? (m.apply s)
    return (e, m)
  | .concatenation items => do
    let (es, m) ← Tree.meanings? m items
    return (.concat es, m)
  | .alternation branches => do
    let (es, m) ← Tree.meanings? m branches
    return (.choice es, m)

def Tree.meanings? (m : Mode) : List Tree → Option (List Expr × Mode)
  | [] => some ([], m)
  | t :: rest => do
    let (e, m) ← t.meaning? m
    let (es, m) ← Tree.meanings? m rest
    return (e :: es, m)
end

/-- The expression of a pattern that stands alone. A pattern that asks for edges of Unicode words has
none. -/
def Tree.expr? (t : Tree) : Option Expr := do
  let (e, _) ← t.meaning? {}
  guard e.isBytewise
  return e

end GuidedDecoding.Pattern
