import GuidedDecoding.Text.Utf8
import GuidedDecoding.Json.Number

/-!
# The tokens of a JSON text

Splitting a text into tokens never fails: what is wrong with a token is part of the token, and after a
token that cannot be completed nothing is read. So a reader of values meets the faults of a text in the
order in which they stand there.

A token can be faulty in two ways, because a value that nobody asked for is only skipped. A numeral
beyond the doubles and a string with half a surrogate pair cannot be read, yet can be skipped.

The scanner is a machine over single characters, `Scan`, so what it has found after a prefix of a text
does not depend on what follows.
-/

namespace GuidedDecoding.Json

inductive Flaw where
  /-- The text ends before the document does. -/
  | truncated
  /-- The text is no JSON. -/
  | malformed
  /-- The text is JSON, but not of the shape asked for. -/
  | mismatched
  deriving DecidableEq, Repr, Inhabited

inductive Word where
  | null
  | true
  | false
  deriving DecidableEq, Repr

def Word.letters : Word → List Char
  | .null => ['n', 'u', 'l', 'l']
  | .true => ['t', 'r', 'u', 'e']
  | .false => ['f', 'a', 'l', 's', 'e']

inductive Token where
  | openArray
  | closeArray
  | openObject
  | closeObject
  | comma
  | colon
  | word (w : Word)
  | number (n : Number)
  | text (s : String)
  /-- A numeral whose value is beyond the doubles. -/
  | hugeNumber
  /-- A string that is complete but holds half a surrogate pair. -/
  | unpairedText
  /-- A word cut off or misspelled. -/
  | brokenWord (flaw : Flaw)
  /-- A numeral that lacks a digit, at the end of the text or not. -/
  | brokenNumber (atEnd : Bool)
  /-- A string that cannot be completed: the fault met when reading it, and when skipping it. -/
  | brokenText (reading skipping : Flaw)
  /-- A character that begins no token. -/
  | stray
  deriving Repr, Inhabited

def isBlank (c : Char) : Bool := c = ' ' || c = '\t' || c = '\n' || c = '\r'

def digit? (c : Char) : Option Nat := if '0' ≤ c ∧ c ≤ '9' then some (c.toNat - 48) else none

def hexDigit? (c : Char) : Option Nat :=
  if '0' ≤ c ∧ c ≤ '9' then some (c.toNat - 48)
  else if 'a' ≤ c ∧ c ≤ 'f' then some (c.toNat - 87)
  else if 'A' ≤ c ∧ c ≤ 'F' then some (c.toNat - 55)
  else none

/-! ### Numerals -/

/-- What the last character of an unfinished numeral was. -/
inductive NumeralPhase where
  | sign
  | zero
  | whole
  | point
  | fraction
  | mark
  | markSign
  | power
  deriving DecidableEq, Repr

/-- A numeral so far; digits are listed last first. -/
structure NumeralScan where
  phase : NumeralPhase
  negative : Bool := false
  whole : List Nat := []
  fraction : Option (List Nat) := none
  powerNegative : Bool := false
  power : Option Nat := none
  deriving Repr

namespace NumeralScan

def numeral (n : NumeralScan) : Numeral where
  negative := n.negative
  whole := n.whole.reverse
  fraction := n.fraction.map List.reverse
  exponent := n.power.map fun p => if n.powerNegative then -(p : Int) else p

def complete (n : NumeralScan) : Bool :=
  match n.phase with
  | .zero | .whole | .fraction | .power => true
  | .sign | .point | .mark | .markSign => false

def token (n : NumeralScan) (atEnd : Bool) : Token :=
  if n.complete then
    match n.numeral.number? with
    | some x => .number x
    | none => .hugeNumber
  else .brokenNumber atEnd

def start? (c : Char) : Option NumeralScan :=
  if c = '-' then some ⟨.sign, true, [], none, false, none⟩
  else
    match digit? c with
    | some 0 => some ⟨.zero, false, [0], none, false, none⟩
    | some d => some ⟨.whole, false, [d], none, false, none⟩
    | none => none

inductive Outcome where
  | more (n : NumeralScan)
  /-- The numeral ended before the character. -/
  | done
  /-- The character makes the numeral faulty. -/
  | broken

/-- A numeral continued by `.` or by a mark of an exponent, where these may stand. -/
def extend (n : NumeralScan) (c : Char) (pointAllowed : Bool) : Outcome :=
  if c = '.' ∧ pointAllowed then .more { n with phase := .point }
  else if c = 'e' ∨ c = 'E' then .more { n with phase := .mark }
  else .done

def feed (n : NumeralScan) (c : Char) : Outcome :=
  match n.phase, digit? c with
  | .sign, some 0 => .more { n with phase := .zero, whole := [0] }
  | .sign, some d => .more { n with phase := .whole, whole := [d] }
  | .sign, none => .broken
  -- A numeral has no digit behind a leading zero: `01` is faulty, and not two numerals.
  | .zero, some _ => .broken
  | .zero, none => n.extend c true
  | .whole, some d => .more { n with whole := d :: n.whole }
  | .whole, none => n.extend c true
  | .point, some d => .more { n with phase := .fraction, fraction := some [d] }
  | .point, none => .broken
  | .fraction, some d => .more { n with fraction := some (d :: n.fraction.getD []) }
  | .fraction, none => n.extend c false
  | .mark, some d => .more { n with phase := .power, power := some d }
  | .mark, none =>
    if c = '+' then .more { n with phase := .markSign }
    else if c = '-' then .more { n with phase := .markSign, powerNegative := true }
    else .broken
  | .markSign, some d => .more { n with phase := .power, power := some d }
  | .markSign, none => .broken
  | .power, some d => .more { n with power := some (n.power.getD 0 * 10 + d) }
  | .power, none => .done

end NumeralScan

/-! ### Strings -/

inductive TextPhase where
  | plain
  /-- Behind a backslash. -/
  | escape
  /-- Behind `\u`: `owed` bytes of the escape are to come, and its value so far unless one of its
  characters was no digit. -/
  | hex (owed : Nat) (value : Option Nat)
  deriving DecidableEq, Repr

/-- A string so far: its characters, last first, unless it cannot be read; and the first half of a
surrogate pair whose second half must follow. -/
structure TextScan where
  phase : TextPhase := .plain
  content : Except Flaw (List Char) := .ok []
  high : Option Nat := none

namespace TextScan

def spoil (t : TextScan) : TextScan :=
  -- What was wrong with the string before stays what is reported.
  { t with content := t.content.bind fun _ => .error .malformed, high := none }

/-- One more character of the content; a pair must have been completed before. -/
def push (t : TextScan) (c : Char) : TextScan :=
  let t := if t.high.isSome then t.spoil else t
  { t with phase := .plain, content := t.content.map (c :: ·) }

/-- One more 16-bit unit of the content, written as an escape. -/
def pushUnit (t : TextScan) (u : Nat) : TextScan :=
  let low : Bool := 0xDC00 ≤ u ∧ u ≤ 0xDFFF
  let high : Bool := 0xD800 ≤ u ∧ u ≤ 0xDBFF
  match t.high with
  | some h =>
    if low then
      { t with
        phase := .plain
        high := none
        content := t.content.map (Char.ofNat (0x10000 + (h - 0xD800) * 0x400 + (u - 0xDC00)) :: ·) }
    -- A second first half begins no new pair, for the string cannot be read any more.
    else { t.spoil with phase := .plain }
  | none =>
    if low then { t.spoil with phase := .plain }
    else if high then { t with phase := .plain, high := some u }
    else { t with phase := .plain, content := t.content.map (Char.ofNat u :: ·) }

def escaped? : Char → Option Char
  | '"' => some '"'
  | '\\' => some '\\'
  | '/' => some '/'
  | 'b' => some '\x08'
  | 'f' => some '\x0C'
  | 'n' => some '\n'
  | 'r' => some '\r'
  | 't' => some '\t'
  | _ => none

def token (t : TextScan) : Token :=
  match t.high, t.content with
  | none, .ok cs => .text (String.ofList cs.reverse)
  | _, _ => .unpairedText

/-- The token of a string that cannot be completed, for this reason. -/
def brokenToken (t : TextScan) (flaw : Flaw) : Token :=
  match t.content with
  | .ok _ => .brokenText flaw flaw
  | .error earlier => .brokenText earlier flaw

inductive Outcome where
  | more (t : TextScan)
  /-- The character completes or ruins the string: its token, and whether the text goes on. -/
  | done (token : Token) (goesOn : Bool)

def feed (t : TextScan) (c : Char) : Outcome :=
  match t.phase with
  | .plain =>
    if c = '"' then .done t.token true
    else if c = '\\' then .more { t with phase := .escape }
    else if c.toNat < 0x20 then .done (t.brokenToken .malformed) false
    else .more (t.push c)
  | .escape =>
    if c = 'u' then .more { t with phase := .hex 4 (some 0) }
    else
      match escaped? c with
      | some e => .more (t.push e)
      | none => .done (t.brokenToken .malformed) false
  | .hex owed value =>
    let value := value.bind fun v => (hexDigit? c).map fun d => v * 16 + d
    -- The escape takes four bytes, which need not be four characters.
    if c.utf8Size < owed then .more { t with phase := .hex (owed - c.utf8Size) value }
    else
      match value with
      | some u => .more (t.pushUnit u)
      | none => .done (t.brokenToken .malformed) false

end TextScan

/-! ### Texts -/

inductive Scan where
  /-- Between two tokens. -/
  | between
  /-- In a word of which these letters are to come. -/
  | word (w : Word) (rest : List Char)
  | numeral (n : NumeralScan)
  | text (t : TextScan)
  /-- Behind a token that could not be completed. -/
  | halted

namespace Scan

def start (c : Char) : Scan × List Token :=
  if isBlank c then (.between, [])
  else
    match c with
    | '[' => (.between, [.openArray])
    | ']' => (.between, [.closeArray])
    | '{' => (.between, [.openObject])
    | '}' => (.between, [.closeObject])
    | ',' => (.between, [.comma])
    | ':' => (.between, [.colon])
    | '"' => (.text {}, [])
    | 'n' => (.word .null ['u', 'l', 'l'], [])
    | 't' => (.word .true ['r', 'u', 'e'], [])
    | 'f' => (.word .false ['a', 'l', 's', 'e'], [])
    | c =>
      match NumeralScan.start? c with
      | some n => (.numeral n, [])
      | none => (.halted, [.stray])

/-- One more character: where the scanner stands then, and the tokens that end here. -/
def feed : Scan → Char → Scan × List Token
  | .between, c => start c
  | .word w rest, c =>
    match rest with
    -- No word gets here, as its last letter leads between two tokens.
    | [] => (.halted, [.brokenWord .malformed])
    | [r] => if c = r then (.between, [.word w]) else (.halted, [.brokenWord .malformed])
    | r :: rs => if c = r then (.word w rs, []) else (.halted, [.brokenWord .malformed])
  | .numeral n, c =>
    match n.feed c with
    | .more n => (.numeral n, [])
    -- A numeral ends in front of the character, which may be a token or begin one.
    | .done => ((start c).1, n.token false :: (start c).2)
    | .broken => (.halted, [.brokenNumber false])
  | .text t, c =>
    match t.feed c with
    | .more t => (.text t, [])
    | .done token goesOn => (if goesOn then .between else .halted, [token])
  | .halted, _ => (.halted, [])

/-- The token that the end of the text completes or cuts off. -/
def finish : Scan → List Token
  | .between | .halted => []
  | .word .. => [.brokenWord .truncated]
  | .numeral n => [n.token true]
  | .text t => [t.brokenToken .truncated]

/-- The tokens of the characters read from a position on. -/
def tokens : Scan → List Char → List Token
  | s, [] => s.finish
  | s, c :: cs => (s.feed c).2 ++ (s.feed c).1.tokens cs

end Scan

def tokens (cs : List Char) : List Token := Scan.between.tokens cs

end GuidedDecoding.Json
