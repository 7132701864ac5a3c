/-!
# Occurrences of texts within a text

The non-overlapping occurrences of one or several texts, found from left to right; of two that begin at one
place the longer counts. `split` cuts a text at them, `replaceAll` puts another text in their place.
-/

namespace GuidedDecoding.Text

/-- A part of a text that was cut: what stands between occurrences, or an occurrence. -/
inductive Part (α : Type) where
  | plain (text : List Char)
  | found (key : α)
  deriving DecidableEq, Repr

/-- The part of the characters that are kept, if there are any. -/
def plainPart {α : Type} : List Char → List (Part α)
  | [] => []
  | cs => [.plain cs]

/-- The longest of the keys whose text stands at the start of `cs`. -/
def longest? {α : Type} (keys : List (List Char × α)) (cs : List Char) : Option (List Char × α) :=
  keys.foldl (fun best key =>
    if key.1.isPrefixOf cs ∧ ((best.map (·.1.length)).getD 0) < key.1.length then some key
    else best) none

/-- Cuts a text at the occurrences of keys. The next `skip` characters belong to the last occurrence, and
`kept` are those since. -/
def splitFrom {α : Type} (keys : List (List Char × α)) :
    (skip : Nat) → (kept : List Char) → List Char → List (Part α)
  | _, kept, [] => plainPart kept
  | skip + 1, kept, _ :: rest => splitFrom keys skip kept rest
  | 0, kept, c :: rest =>
    match longest? keys (c :: rest) with
    | some (text, key) => plainPart kept ++ .found key :: splitFrom keys (text.length - 1) [] rest
    | none => splitFrom keys 0 (kept ++ [c]) rest

/-- Cuts a text at the occurrences of keys; an empty text never occurs. -/
def split {α : Type} (keys : List (List Char × α)) (cs : List Char) : List (Part α) :=
  splitFrom keys 0 [] cs

def replaceAll (target replacement cs : List Char) : List Char :=
  (split [(target, ())] cs).flatMap fun
    | .plain text => text
    | .found _ => replacement

def runs (isGap : Char → Bool) (kept : List Char) : List Char → List (List Char)
  | [] => if kept.isEmpty then [] else [kept]
  | c :: rest =>
    if !isGap c then runs isGap (kept ++ [c]) rest
    else if kept.isEmpty then runs isGap [] rest
    else kept :: runs isGap [] rest

end GuidedDecoding.Text
