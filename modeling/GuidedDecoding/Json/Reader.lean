import GuidedDecoding.Json.Value

/-!
# Typed readers

A reader takes a typed value from the front of a list of tokens. It meets the tokens in order, so the
first thing that is wrong is what it reports: a value of the wrong type (`mismatched`) in front of a
fault of the text hides that fault, and a fault in front of it wins.

Records are read by `Field`s. Members that are not a field are skipped, a field may stand once, and the
record may also be written as the array of its fields in order. Skipping a value checks its tokens
alone: neither nesting nor unpaired surrogates nor huge numerals matter there.
-/

namespace GuidedDecoding.Json

/-- Reads a value of type `α` in which at most `limit` containers may be open at once. -/
abbrev Reader (α : Type) := (limit : Nat) → List Token → Except Flaw (α × List Token)

namespace Reader

/-- What is wrong when a value of another type was asked for. A token that is faulty itself reports
that. -/
def mismatch : List Token → Flaw
  | [] => .truncated
  | .brokenWord flaw :: _ => flaw
  | .brokenNumber atEnd :: _ => if atEnd then .truncated else .malformed
  | .brokenText flaw _ :: _ => flaw
  | .hugeNumber :: _ | .unpairedText :: _ | .closeArray :: _ | .closeObject :: _ | .comma :: _
  | .colon :: _ | .stray :: _ => .malformed
  | .word _ :: _ | .number _ :: _ | .text _ :: _ | .openArray :: _ | .openObject :: _ => .mismatched

/-- Reads a value and turns it into another, or refuses it. -/
def refine (read : Reader α) (f : α → Option β) : Reader β := fun limit ts =>
  match read limit ts with
  | .error flaw => .error flaw
  | .ok (a, rest) =>
    match f a with
    | some b => .ok (b, rest)
    | none => .error .mismatched

def value : Reader Value := Value.take

def bool : Reader Bool
  | _, .word .true :: rest => .ok (true, rest)
  | _, .word .false :: rest => .ok (false, rest)
  | _, ts => .error (mismatch ts)

def text : Reader String
  | _, .text s :: rest => .ok (s, rest)
  | _, ts => .error (mismatch ts)

def number : Reader Number
  | _, .number n :: rest => .ok (n, rest)
  | _, ts => .error (mismatch ts)

def integer (low high : Int) : Reader Int := refine number fun
  | .integer n => if low ≤ n ∧ n ≤ high then some n else none
  | .real _ => none

def natural (high : Nat) : Reader Nat := refine (integer 0 high) fun n => some n.toNat

def word64 : Reader Nat := natural (Nat.pow 2 64 - 1)

def single : Reader Float32 := refine number fun
  | .integer n => some (Float32.ofInt n)
  | .real x => some (narrow x)

def optional (read : Reader α) : Reader (Option α)
  | _, .word .null :: rest => .ok (none, rest)
  | limit, ts =>
    match read limit ts with
    | .ok (a, rest) => .ok (some a, rest)
    | .error flaw => .error flaw

/-! ### Skipping -/

def lenient : Token → Token
  -- Any scalar will do for a value that is skipped.
  | .hugeNumber => .word .null
  | .brokenNumber _ => .brokenNumber false
  | .unpairedText => .text ""
  | .brokenText _ skipping => .brokenText skipping skipping
  | t => t

def skip (ts : List Token) : Except Flaw (List Token) :=
  match Progress.take lenient (ts.length + 1) [] .value ts with
  | .ok (_, rest) => .ok rest
  | .error flaw => .error flaw

/-! ### Lists and maps -/

/-- Whether another item follows, and the tokens at its begin or behind the closing bracket. -/
def nextItem (isFirst : Bool) : List Token → Except Flaw (Bool × List Token)
  | [] => .error .truncated
  | .closeArray :: rest => .ok (false, rest)
  | t :: rest =>
    if isFirst then .ok (true, t :: rest)
    else
      match t, rest with
      | .comma, [] => .error .truncated
      | .comma, .closeArray :: _ => .error .malformed
      | .comma, rest => .ok (true, rest)
      | _, _ => .error .malformed

/-- The items up to the closing bracket; `fuel` bounds their number. -/
def items (read : Reader α) (limit : Nat) :
    (fuel : Nat) → (isFirst : Bool) → List Token → Except Flaw (List α × List Token)
  -- Every item takes a token, so the fuel is not used up before the tokens.
  | 0, _, _ => .error .truncated
  | fuel + 1, isFirst, ts => do
    let (more, ts) ← nextItem isFirst ts
    if !more then return ([], ts)
    let (a, ts) ← read limit ts
    let (as, ts) ← items read limit fuel false ts
    return (a :: as, ts)

def list (read : Reader α) : Reader (List α)
  | limit, .openArray :: rest =>
    match limit with
    | 0 => .error .malformed
    | limit + 1 => items read limit (rest.length + 1) true rest
  | _, ts => .error (mismatch ts)

/-- The key of the next member with the tokens behind it, or the tokens behind the closing brace. -/
def nextKey (isFirst : Bool) : List Token → Except Flaw (Option String × List Token)
  | [] => .error .truncated
  | .closeObject :: rest => .ok (none, rest)
  | .comma :: rest => if isFirst then .error .malformed else key rest
  | ts => if isFirst then key ts else .error .malformed
where
  /-- The key that must stand here. -/
  key : List Token → Except Flaw (Option String × List Token)
    | [] => .error .truncated
    | .text s :: rest => .ok (some s, rest)
    | .brokenText flaw _ :: _ => .error flaw
    | _ => .error .malformed

def afterColon : List Token → Except Flaw (List Token)
  | [] => .error .truncated
  | .colon :: rest => .ok rest
  | _ => .error .malformed

/-- The members up to the closing brace, folded into `state`; `fuel` bounds their number. -/
def members (member : σ → String → List Token → Except Flaw (σ × List Token)) :
    (fuel : Nat) → (isFirst : Bool) → σ → List Token → Except Flaw (σ × List Token)
  | 0, _, _, _ => .error .truncated
  | fuel + 1, isFirst, state, ts => do
    let (key, ts) ← nextKey isFirst ts
    match key with
    | none => return (state, ts)
    | some key =>
      let (state, ts) ← member state key ts
      members member fuel false state ts

/-- An object as a map, sorted by key; of members with one key the last one counts. -/
def map (read : Reader α) : Reader (List (String × α))
  | limit, .openObject :: rest =>
    match limit with
    | 0 => .error .malformed
    | limit + 1 => do
      let (pairs, ts) ← members
        (fun pairs key ts => do
          let (a, ts) ← read limit (← afterColon ts)
          return ((key, a) :: pairs, ts))
        (rest.length + 1) true [] rest
      return (Value.sortMembers pairs.reverse, ts)
  | _, ts => .error (mismatch ts)

/-! ### Records -/

/-- A field of a record of type `σ`: its name, whether it has been read, and how it is read into the
record. -/
structure Field (σ : Type) where
  name : String
  isSet : σ → Bool
  read : σ → Reader σ

/-- The record written as an array of its fields; fields that are not there stay unset. -/
def positional (limit : Nat) :
    List (Field σ) → (isFirst : Bool) → σ → List Token → Except Flaw (σ × List Token)
  | [], _, state, ts =>
    match ts with
    | [] => .error .truncated
    | .closeArray :: rest => .ok (state, rest)
    | _ :: _ => .error .malformed
  | field :: fields, isFirst, state, ts => do
    let (more, ts) ← nextItem isFirst ts
    if !more then return (state, ts)
    let (state, ts) ← field.read state limit ts
    positional limit fields false state ts

def member (fields : List (Field σ)) (limit : Nat) (state : σ) (key : String) (ts : List Token) :
    Except Flaw (σ × List Token) :=
  match fields.find? (·.name == key) with
  | none => do return (state, ← skip (← afterColon ts))
  | some field =>
    if field.isSet state then .error .mismatched
    else do field.read state limit (← afterColon ts)

/-- A record: read from `unset` field by field, and completed unless a field is missing. -/
def record (unset : σ) (fields : List (Field σ)) (complete : σ → Option α) : Reader α :=
  refine (fun limit ts =>
    match limit, ts with
    | 0, .openArray :: _ | 0, .openObject :: _ => .error .malformed
    | limit + 1, .openArray :: rest => positional limit fields true unset rest
    | limit + 1, .openObject :: rest =>
      members (member fields limit) (rest.length + 1) true unset rest
    | _, ts => .error (mismatch ts)) complete

/-! ### Choices -/

/-- One of several names, written as a string or as an object with that one member, whose value is
`null`. -/
def choice (names : List (String × α)) : Reader α
  | _, .text s :: rest => do return (← named s, rest)
  | limit, .openObject :: rest =>
    if limit = 0 then .error .malformed
    else do
      let (s, ts) ← text limit rest
      let a ← named s
      match ← afterColon ts with
      | .word .null :: ts =>
        match ts with
        | .closeObject :: ts => return (a, ts)
        | [] => .error .truncated
        | _ :: _ => .error .malformed
      | ts => .error (mismatch ts)
  | _, .brokenText flaw _ :: _ => .error flaw
  | _, [] => .error .truncated
  | _, _ :: _ => .error .malformed
where
  /-- The choice of this name. -/
  named (s : String) : Except Flaw α :=
    match names.find? (·.1 == s) with
    | some (_, a) => .ok a
    | none => .error .mismatched

end Reader

def read (reader : Reader α) (s : String) : Except Flaw α :=
  match reader nestingLimit (tokens s.toList) with
  | .ok (a, []) => .ok a
  | .ok (_, _ :: _) => .error .malformed
  | .error flaw => .error flaw

/-! ### Typed values from values -/

mutual

def Value.toTokens : Value → List Token
  | .null => [.word .null]
  | .bool true => [.word .true]
  | .bool false => [.word .false]
  | .number n => [.number n]
  | .text s => [.text s]
  | .array [] => [.openArray, .closeArray]
  | .array (v :: vs) => .openArray :: (v.toTokens ++ Value.restItems vs)
  | .object [] => [.openObject, .closeObject]
  | .object ((k, v) :: ms) => .openObject :: .text k :: .colon :: (v.toTokens ++ Value.restMembers ms)

def Value.restItems : List Value → List Token
  | [] => [.closeArray]
  | v :: vs => .comma :: (v.toTokens ++ Value.restItems vs)

def Value.restMembers : List (String × Value) → List Token
  | [] => [.closeObject]
  | (k, v) :: ms => .comma :: .text k :: .colon :: (v.toTokens ++ Value.restMembers ms)

end

/-- Reads a typed value from a value. The value is no text, so it can only be of the wrong shape. -/
def readValue (reader : Reader α) (v : Value) : Except Flaw α :=
  -- A value nests no deeper than it has tokens, so the limit is never met.
  match reader v.toTokens.length v.toTokens with
  | .ok (a, []) => .ok a
  | _ => .error .mismatched

end GuidedDecoding.Json
