import GuidedDecoding.Pattern.Syntax

/-!
# Reading patterns

Patterns are read by recursive descent. What is left of the text, the verbose switch and the names of
groups so far are threaded through; every kind of mistake makes the pattern unreadable in the same way,
so a reader answers with nothing for it.

Each turn of a loop takes at least one character. The loops therefore carry the number of characters
left as fuel.
-/

namespace GuidedDecoding.Pattern

open Unicode (isBlank isAlphabetic isNumeric)

structure Cursor where
  rest : List Char
  /-- Whether blanks and comments are skipped. -/
  verbose : Bool := false
  /-- The names of groups. -/
  names : List (List Char) := []
  deriving DecidableEq, Repr

/-- Something that reads a part of a pattern. -/
abbrev Read := StateT Cursor Option

/-- What is left after blanks and comments; a comment runs to the end of its line. -/
def afterBlanks (inComment : Bool) : List Char → List Char
  | [] => []
  | c :: rest =>
    if inComment then afterBlanks (c != '\n') rest
    else if isBlank c then afterBlanks false rest
    else if c = '#' then afterBlanks true rest
    else c :: rest

namespace Read

/-- The text that is left. -/
def rest : Read (List Char) := return (← get).rest

/-- The next character; there must be one. -/
def current : Read Char := do
  match ← rest with
  | c :: _ => return c
  | [] => failure

def isNext (text : String) : Read Bool := return text.toList.isPrefixOf (← rest)

def skip (count : Nat) : Read Unit := modify fun s => { s with rest := s.rest.drop count }

/-- Skips blanks and comments where the pattern is verbose. -/
def blanks : Read Unit :=
  modify fun s => if s.verbose then { s with rest := afterBlanks false s.rest } else s

def advance : Read Unit := do
  skip 1
  blanks

def expect (c : Char) : Read Unit := do
  guard ((← current) = c)
  skip 1

/-- Takes characters while they are in a class, skipping the blanks between them. -/
def takeWhile (p : Char → Bool) : Nat → Read (List Char)
  | 0 => return []
  | fuel + 1 => do
    match ← rest with
    | c :: _ =>
      if p c then
        advance
        return c :: (← takeWhile p fuel)
      else return []
    | [] => return []

def run (p : Char → Bool) : Read (List Char) := do takeWhile p (← rest).length

def ofOption {α : Type} : Option α → Read α
  | some a => return a
  | none => failure

end Read

open Read

/-! ### Numbers and escapes -/

def repetitionLimit : Nat := Nat.pow 2 32 - 1

def numeral (base : Nat) (digits : List Char) : Nat :=
  digits.foldl (fun n c => n * base + (CharSet.hexDigit? c).getD 0) 0

def decimal : Read Nat := do
  -- Blanks around a number are skipped whether or not the pattern is verbose.
  let trim : Read Unit := modify fun s => { s with rest := s.rest.dropWhile isBlank }
  trim
  let digits ← run Char.isDigit
  trim
  guard (digits ≠ [])
  let n := numeral 10 digits
  guard (n ≤ repetitionLimit)
  return n

def isHexDigit (c : Char) : Bool := (CharSet.hexDigit? c).isSome

def charOf? (n : Nat) : Option Char := if n.isValidChar then some (Char.ofNat n) else none

def hexDigits : Nat → Read (List Char)
  | 0 => return []
  | count + 1 => do
    let c ← current
    guard (isHexDigit c)
    advance
    return c :: (← hexDigits count)

/-- The character that follows `\x`, `\u` or `\U`: this many digits, or any number of them in braces. -/
def codePoint (count : Nat) : Read Literal := do
  advance
  if (← current) = '\x7b' then
    advance
    let digits ← run isHexDigit
    guard (digits ≠ [] ∧ (← current) = '\x7d')
    advance
    return { char := ← ofOption (charOf? (numeral 16 digits)) }
  else
    let digits ← hexDigits count
    return { char := ← ofOption (charOf? (numeral 16 digits)), isByte := count = 2 }

/-- Splits a text at the first occurrence of a separator. -/
def splitAt? (separator : List Char) : List Char → Option (List Char × List Char)
  | [] => none
  | c :: rest =>
    if separator.isPrefixOf (c :: rest) then some ([], (c :: rest).drop separator.length)
    else (splitAt? separator rest).map fun (before, after) => (c :: before, after)

/-- The class of what stands in the braces of `\p`: a name, or a property with one of its values. -/
def propertyClass (text : List Char) (negated : Bool) : NamedClass :=
  let valued (negated : Bool) : List Char × List Char → NamedClass
    | (property, value) => .valued (String.ofList property) (String.ofList value) negated
  match splitAt? ['!', '='] text, splitAt? [':'] text, splitAt? ['='] text with
  | some split, _, _ => valued (!negated) split
  | none, some split, _ => valued negated split
  | none, none, some split => valued negated split
  | none, none, none => .property (String.ofList text) negated

def property (negated : Bool) : Read NamedClass := do
  advance
  let c ← current
  if c = '\x7b' then
    advance
    let text ← run (· != '\x7d')
    expect '\x7d'
    return propertyClass text negated
  else
    guard (c ≠ '\\')
    advance
    return .property (String.ofList [c]) negated

/-- The part of a word boundary that stands in braces behind `\b`. Braces that do not begin with a letter
or a hyphen belong to a repetition. -/
def wordEdge : Read WordEdge := do
  let start ← get
  if ← isNext "\x7b" then
    let inName (c : Char) : Bool := c.isAlpha || c == '-'
    advance
    if inName (← current) then
      let name ← run inName
      expect '\x7d'
      match String.ofList name with
      | "start" => return .start
      | "end" => return .finish
      | "start-half" => return .startHalf
      | "end-half" => return .finishHalf
      | _ => failure
    else
      set start
      return .boundary
  else return .boundary

inductive Escape where
  | literal (literal : Literal)
  | named (named : NamedClass)
  | assertion (assertion : Assertion)

def control? : Char → Option Char
  | 'a' => some '\x07'
  | 'f' => some '\x0c'
  | 't' => some '\t'
  | 'n' => some '\n'
  | 'r' => some '\r'
  | 'v' => some '\x0b'
  | _ => none

/-- Whether a character stands for itself behind a backslash. -/
def isEscapable (c : Char) : Bool :=
  c.toNat < 0x80 && !c.isAlphanum && c != '<' && c != '>'

def escape : Read Escape := do
  skip 1
  let c ← current
  let short (kind : Unicode.ShortClass) : Read Escape := do
    skip 1
    return .named (.short kind c.isUpper)
  let assertion (a : Assertion) : Read Escape := do
    skip 1
    return .assertion a
  match c with
  | 'x' => return .literal (← codePoint 2)
  | 'u' => return .literal (← codePoint 4)
  | 'U' => return .literal (← codePoint 8)
  | 'p' => return .named (← property false)
  | 'P' => return .named (← property true)
  | 'd' | 'D' => short .digit
  | 's' | 'S' => short .space
  | 'w' | 'W' => short .word
  | 'A' => assertion .textStart
  | 'z' => assertion .textEnd
  | 'B' => assertion (.word .noBoundary)
  | '<' => assertion (.word .start)
  | '>' => assertion (.word .finish)
  | 'b' => do
    skip 1
    return .assertion (.word (← wordEdge))
  | c => do
    skip 1
    if isEscapable c then return .literal { char := c }
    else return .literal { char := ← ofOption (control? c) }

/-! ### Classes in brackets -/

/-- A class such as `[:alpha:]`; where there is none, nothing is read. -/
def asciiClass? : Read (Option ClassTree) := do
  let start ← rest
  match start with
  | '[' :: ':' :: body =>
    let (negated, body) := match body with
      | '^' :: body => (true, body)
      | body => (false, body)
    match splitAt? [':'] body with
    | some (name, ']' :: after) =>
      match Unicode.asciiClass? (String.ofList name) with
      | some set =>
        modify fun s => { s with rest := after }
        return some (.named (.ascii set negated))
      | none => return none
    | _ => return none
  | _ => return none

def classItem : Read Escape := do
  let c ← current
  if c = '\\' then escape
  else
    skip 1
    return .literal { char := c }

/-- The character after a hyphen and what blanks follow. A number sign among the blanks is skipped once. -/
def afterHyphen? (verbose : Bool) (rest : List Char) : Option Char :=
  if verbose then
    match rest.dropWhile isBlank with
    | '#' :: more => ((more.dropWhile isBlank).head?).or rest.head?
    | c :: _ => some c
    | [] => rest.head?
  else rest.head?

/-- One item of a class in brackets, or a range between two characters. A hyphen before a closing bracket
or before another hyphen makes no range. -/
def classRange : Read ClassTree := do
  let first ← classItem
  blanks
  let c ← current
  let next := afterHyphen? (← get).verbose ((← rest).drop 1)
  if c ≠ '-' ∨ next = some ']' ∨ next = some '-' then
    match first with
    | .literal l => return .char l
    | .named n => return .named n
    | .assertion _ => failure
  else
    advance
    match first, ← classItem with
    | .literal a, .literal b =>
      guard (a.char ≤ b.char)
      return .range a b
    | _, _ => failure

/-- The opening of a class in brackets: whether it is negated, and the hyphens and the closing bracket
that stand for themselves at its start. -/
def classOpening : Read (Bool × List ClassTree) := do
  advance
  let negated ← isNext "^"
  if negated then advance
  let hyphens ← run (· == '-')
  let items := hyphens.map fun c => ClassTree.char { char := c }
  if hyphens.isEmpty ∧ (← isNext "]") then
    advance
    return (negated, [.char { char := ']' }])
  else return (negated, items)

def operation? : Read (Option SetOperation) := do
  if ← isNext "&&" then return some .inter
  else if ← isNext "--" then return some .diff
  else if ← isNext "~~" then return some .symmDiff
  else return none

/-- A part of a class with the operation that is open before it. -/
def closed (pending : Option (SetOperation × ClassTree)) (items : List ClassTree) : ClassTree :=
  match pending with
  | some (op, left) => .operation op left (.ofItems items)
  | none => .ofItems items

/-- The body of a class in brackets up to its closing bracket. Operations associate to the left. -/
def classBody : Nat → Option (SetOperation × ClassTree) → List ClassTree → Read ClassTree
  | 0, _, _ => failure
  | fuel + 1, pending, items => do
    blanks
    let c ← current
    if c = '[' then
      -- A bracket that opens no named class opens a class within the class.
      match ← asciiClass? with
      | some ascii => classBody fuel pending (items ++ [ascii])
      | none =>
        let (negated, opening) ← classOpening
        let body ← classBody fuel none opening
        classBody fuel pending (items ++ [.bracketed negated body])
    else if c = ']' then
      skip 1
      return closed pending items
    else
      match ← operation? with
      | some op =>
        skip 2
        classBody fuel (some (op, closed pending items)) []
      | none =>
        let item ← classRange
        classBody fuel pending (items ++ [item])

def bracketed : Read Tree := do
  let (negated, opening) ← classOpening
  return .bracketed negated (← classBody ((← rest).length + 1) none opening)

/-! ### Groups and repetitions -/

def switch? : Char → Option Switch
  | 'i' => some .ignoreCase
  | 'm' => some .lines
  | 's' => some .dotAll
  | 'U' => some .swapGreed
  | 'u' => some .unicode
  | 'R' => some .crlf
  | 'x' => some .verbose
  | _ => none

/-- The letters of switches up to a colon or a closing parenthesis. A hyphen, of which there is at most
one and which a letter must follow, turns off those behind it. No switch is named twice. -/
def settings (on : Bool) (read : Settings) : List Char → Option (Settings × List Char)
  | [] => none
  | c :: rest =>
    if c = ':' ∨ c = ')' then some (read, c :: rest)
    else if c = '-' then
      match rest with
      | d :: _ => if on ∧ (switch? d).isSome then settings false read rest else none
      | [] => none
    else
      match switch? c with
      | some s => if read.any (·.1 = s) then none else settings on (read ++ [(s, on)]) rest
      | none => none

def verboseAfter (settings : Settings) (before : Bool) : Bool :=
  ((settings.find? (·.1 = .verbose)).map (·.2)).getD before

def isGroupName : List Char → Bool
  | [] => false
  | c :: rest => (c == '_' || isAlphabetic c) && rest.all fun d =>
      d == '_' || d == '.' || d == '[' || d == ']' || isAlphabetic d || isNumeric d

/-- The name of a group up to its closing angle bracket; no two groups share a name. -/
def groupName : Read Unit := do
  let s ← get
  let name := s.rest.takeWhile (· != '>')
  guard (isGroupName name ∧ name ∉ s.names)
  skip name.length
  expect '>'
  modify fun s => { s with names := name :: s.names }

inductive Opening where
  /-- A group with switches of its own. -/
  | group (settings : Settings)
  /-- Switches for the rest of the group around it. -/
  | settings (settings : Settings)

/-- What stands between an opening parenthesis and the body of the group. -/
def opening : Read Opening := do
  advance
  -- A group that only looks ahead or behind makes a pattern unreadable.
  if (← isNext "?=") || (← isNext "?!") || (← isNext "?<=") || (← isNext "?<!") then failure
  else if ← isNext "?P<" then
    skip 3
    groupName
    return .group []
  else if ← isNext "?<" then
    skip 2
    groupName
    return .group []
  else if ← isNext "?" then
    skip 1
    let (read, after) ← ofOption (settings true [] (← rest))
    modify fun s => { s with rest := after.drop 1 }
    if after.head? = some ':' then return .group read
    else
      guard (read ≠ [])
      return .settings read
  else return .group []

/-- A question mark behind a repetition, which prefers few; it changes nothing that matches. -/
def preference : Read Unit := do
  if ← isNext "?" then skip 1

/-- The bounds in the braces of a repetition. -/
def bounds : Read (Nat × Option Nat) := do
  advance
  let min ← decimal
  let max ←
    if (← current) = ',' then
      advance
      if (← current) = '\x7d' then pure none else pure (some (← decimal))
    else pure (some min)
  guard ((← current) = '\x7d' ∧ ∀ m, m ∈ max → min ≤ m)
  advance
  preference
  return (min, max)

def repetition? : Read (Option (Nat × Option Nat)) := do
  let sign (min : Nat) (max : Option Nat) : Read (Option (Nat × Option Nat)) := do
    skip 1
    preference
    return some (min, max)
  match (← rest).head? with
  | some '?' => sign 0 (some 1)
  | some '*' => sign 0 none
  | some '+' => sign 1 none
  | some '\x7b' => return some (← bounds)
  | _ => return none

/-- A part of a pattern without parts of its own. -/
def leaf : Read Tree := do
  let c ← current
  match c with
  | '\\' =>
    match ← escape with
    | .literal l => return .literal l
    | .named n => return .named n
    | .assertion a => return .assertion a
  | '.' => skip 1; return .dot
  | '^' => skip 1; return .assertion .caret
  | '$' => skip 1; return .assertion .dollar
  | c => skip 1; return .literal { char := c }

/-- Branches up to a closing parenthesis, which is left, or the end. -/
def branches : Nat → List Tree → List Tree → Read Tree
  | 0, _, _ => failure
  | fuel + 1, done, items => do
    blanks
    match (← rest).head? with
    | none | some ')' => return .ofBranches (done ++ [.ofItems items])
    | some '|' =>
      skip 1
      branches fuel (done ++ [.ofItems items]) []
    | some '[' => branches fuel done (items ++ [← bracketed])
    | some '(' =>
      match ← opening with
      | .settings s =>
        modify fun c => { c with verbose := verboseAfter s c.verbose }
        branches fuel done (items ++ [.settings s])
      | .group s =>
        let outer := (← get).verbose
        -- Whether the pattern is verbose is up to the group for as long as that is open.
        modify fun c => { c with verbose := verboseAfter s outer }
        let body ← branches fuel [] []
        modify fun c => { c with verbose := outer }
        expect ')'
        branches fuel done (items ++ [.group s body])
    | _ =>
      match ← repetition? with
      | some (min, max) =>
        let body ← ofOption items.getLast?
        guard body.isRepeatable
        branches fuel done (items.dropLast ++ [.repetition body min max])
      | none => branches fuel done (items ++ [← leaf])

/-- The tree of a pattern, unless it is badly formed or nests too deeply. -/
def Tree.read? (text : List Char) : Option Tree := do
  let (tree, after) ← StateT.run (branches (text.length + 1) [] []) { rest := text }
  -- What is left over begins with a parenthesis that closes nothing.
  guard (after.rest = [] ∧ tree.depth ≤ depthLimit)
  return tree

end GuidedDecoding.Pattern
