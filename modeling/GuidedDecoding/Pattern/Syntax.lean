import GuidedDecoding.Text.CharSet
import GuidedDecoding.Unicode.Class

/-!
# The syntax of patterns

A pattern as it is written: literals, classes, assertions, repetitions, groups and switches. Switches
hold from where they stand to the end of the group around them. What the parts match is not said here.

`Tree.depth` counts how deeply a tree nests; a pattern that nests too deeply is refused.
-/

namespace GuidedDecoding.Pattern

inductive Switch where
  /-- `i`: letters match in either case. -/
  | ignoreCase
  /-- `m`: `^` and `$` match at lines. -/
  | lines
  /-- `s`: `.` matches the ends of lines too. -/
  | dotAll
  /-- `U`: repetitions prefer few where they would prefer many. -/
  | swapGreed
  /-- `u`: classes and letters are those of Unicode. -/
  | unicode
  /-- `R`: lines end at `\r` and `\r\n` as well. -/
  | crlf
  /-- `x`: blanks and comments are skipped. -/
  | verbose
  deriving DecidableEq, Repr

/-- Switches in the order of their mention, each with whether it is turned on. -/
abbrev Settings := List (Switch × Bool)

/-- A single character as written. -/
structure Literal where
  char : Char
  /-- Whether it is written `\xHH`, which without Unicode means a byte. -/
  isByte : Bool := false
  deriving DecidableEq, Repr

/-- A condition on the characters before and after a position. -/
inductive WordEdge where
  | boundary
  | noBoundary
  | start
  | finish
  /-- No word character before. -/
  | startHalf
  /-- No word character after. -/
  | finishHalf
  deriving DecidableEq, Repr

inductive Assertion where
  /-- `^` -/
  | caret
  /-- `$` -/
  | dollar
  /-- `\A` -/
  | textStart
  /-- `\z` -/
  | textEnd
  | word (edge : WordEdge)
  deriving DecidableEq, Repr

inductive NamedClass where
  /-- `\d`, `\s` or `\w`; with a capital letter negated. -/
  | short (kind : Unicode.ShortClass) (negated : Bool)
  /-- `\p` with one name. -/
  | property (name : String) (negated : Bool)
  /-- `\p` with the name of a property and a value of it. -/
  | valued (property value : String) (negated : Bool)
  /-- `[:name:]` with its characters. -/
  | ascii (set : CharSet) (negated : Bool)
  deriving DecidableEq

inductive SetOperation where
  /-- `&&` -/
  | inter
  /-- `--` -/
  | diff
  /-- `~~` -/
  | symmDiff
  deriving DecidableEq, Repr

/-- What stands between square brackets. -/
inductive ClassTree where
  | empty
  | char (literal : Literal)
  | range (first last : Literal)
  | named (named : NamedClass)
  | bracketed (negated : Bool) (body : ClassTree)
  | union (items : List ClassTree)
  | operation (op : SetOperation) (left right : ClassTree)

inductive Tree where
  | empty
  | settings (settings : Settings)
  | literal (literal : Literal)
  /-- `.` -/
  | dot
  | assertion (assertion : Assertion)
  | named (named : NamedClass)
  | bracketed (negated : Bool) (body : ClassTree)
  /-- At least `min` and at most `max` times. -/
  | repetition (body : Tree) (min : Nat) (max : Option Nat)
  | group (settings : Settings) (body : Tree)
  | concatenation (items : List Tree)
  | alternation (branches : List Tree)

/-! ### Depth -/

mutual
/-- How deeply brackets, unions and operations nest. -/
def ClassTree.depth : ClassTree → Nat
  | .empty | .char _ | .range _ _ | .named _ => 0
  | .bracketed _ body => body.depth + 1
  | .union items => ClassTree.depths items + 1
  | .operation _ left right => max left.depth right.depth + 1

def ClassTree.depths : List ClassTree → Nat
  | [] => 0
  | t :: rest => max t.depth (ClassTree.depths rest)
end

mutual
/-- How deeply repetitions, groups, concatenations, alternations and brackets nest. -/
def Tree.depth : Tree → Nat
  | .empty | .settings _ | .literal _ | .dot | .assertion _ | .named _ => 0
  | .bracketed _ body => body.depth + 1
  | .repetition body _ _ => body.depth + 1
  | .group _ body => body.depth + 1
  | .concatenation items => Tree.depths items + 1
  | .alternation branches => Tree.depths branches + 1

def Tree.depths : List Tree → Nat
  | [] => 0
  | t :: rest => max t.depth (Tree.depths rest)
end

def depthLimit : Nat := 250

/-! ### Lists of parts -/

def Tree.ofItems : List Tree → Tree
  | [] => .empty
  | [t] => t
  | items => .concatenation items

/-- The tree of branches; there is at least one. -/
def Tree.ofBranches : List Tree → Tree
  | [] => .empty
  | [t] => t
  | branches => .alternation branches

def ClassTree.ofItems : List ClassTree → ClassTree
  | [] => .empty
  | [t] => t
  | items => .union items

/-- Whether a repetition can follow: there must be something to repeat. -/
def Tree.isRepeatable : Tree → Bool
  | .empty | .settings _ => false
  | _ => true

end GuidedDecoding.Pattern
