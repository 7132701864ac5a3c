import GuidedDecoding.Json.Token

/-!
# JSON values

`Value` is what a document denotes, with the members of an object in the order of the text, repeated
keys included; `Value.normalize` sorts the members by key and keeps the last of those with one key.

Values are read from tokens by a machine with a stack of open containers. A container may be opened
only while fewer than a limit are open.
-/

namespace GuidedDecoding.Json

inductive Value where
  | null
  | bool (b : Bool)
  | number (n : Number)
  | text (s : String)
  | array (items : List Value)
  | object (members : List (String × Value))
  deriving Repr, Inhabited

namespace Value

def text? : Value → Option String
  | .text s => some s
  | _ => none

/-- The value of the last member with this key. -/
def member? (key : String) (members : List (String × α)) : Option α :=
  (members.reverse.find? (·.1 == key)).map (·.2)

/-- Drops every entry that is followed by one with the same key. -/
def lastOfRuns : List (String × α) → List (String × α)
  | a :: b :: rest => if a.1 == b.1 then lastOfRuns (b :: rest) else a :: lastOfRuns (b :: rest)
  | rest => rest

/-- The members in the order of their keys, the last one of each key. -/
def sortMembers (members : List (String × α)) : List (String × α) :=
  lastOfRuns (members.mergeSort fun a b => !decide (b.1 < a.1))

mutual

/-- The value with the members of every object sorted, one for each key. -/
def normalize : Value → Value
  | .array items => .array (normalizeItems items)
  | .object members => .object (sortMembers (normalizeMembers members))
  | .null => .null
  | .bool b => .bool b
  | .number n => .number n
  | .text s => .text s

def normalizeItems : List Value → List Value
  | [] => []
  | v :: vs => v.normalize :: normalizeItems vs

def normalizeMembers : List (String × Value) → List (String × Value)
  | [] => []
  | (k, v) :: ms => (k, v.normalize) :: normalizeMembers ms

end

end Value

/-! ### Reading values from tokens -/

/-- A container that is open: what it holds so far, last first, and for an object the key of the
member that is being read or has just been read. -/
inductive Frame where
  | array (items : List Value)
  | object (members : List (String × Value)) (key : String)
  deriving Repr

inductive Awaiting where
  | value
  | itemOrClose
  | key
  | keyOrClose
  | colon
  | commaOrClose
  deriving DecidableEq, Repr

inductive Progress where
  /-- These containers are open, innermost first. -/
  | reading (stack : List Frame) (awaiting : Awaiting)
  | done (v : Value)
  deriving Repr

namespace Progress

/-- Hands a value to the innermost open container. -/
def supply (v : Value) : List Frame → Progress
  | [] => .done v
  | .array items :: fs => .reading (.array (v :: items) :: fs) .commaOrClose
  | .object members key :: fs => .reading (.object ((key, v) :: members) key :: fs) .commaOrClose

/-- Opens a container, unless `limit` are open. -/
def enter (limit : Nat) (frame : Frame) (awaiting : Awaiting) (stack : List Frame) :
    Except Flaw Progress :=
  if stack.length < limit then .ok (.reading (frame :: stack) awaiting) else .error .malformed

def begin (limit : Nat) (stack : List Frame) : Token → Except Flaw Progress
  | .word .null => .ok (supply .null stack)
  | .word .true => .ok (supply (.bool true) stack)
  | .word .false => .ok (supply (.bool false) stack)
  | .number n => .ok (supply (.number n) stack)
  | .text s => .ok (supply (.text s) stack)
  | .openArray => enter limit (.array []) .itemOrClose stack
  | .openObject => enter limit (.object [] "") .keyOrClose stack
  | .brokenWord flaw => .error flaw
  | .brokenNumber atEnd => .error (if atEnd then .truncated else .malformed)
  | .brokenText flaw _ => .error flaw
  | .hugeNumber | .unpairedText | .closeArray | .closeObject | .comma | .colon | .stray =>
    .error .malformed

def beginKey (stack : List Frame) : Token → Except Flaw Progress
  | .text s =>
    match stack with
    | .object members _ :: fs => .ok (.reading (.object members s :: fs) .colon)
    | _ => .error .malformed
  | .brokenText flaw _ => .error flaw
  | _ => .error .malformed

/-- A closing token: the innermost container is complete if it is of that kind. -/
def leave (stack : List Frame) : Token → Except Flaw Progress
  | .closeArray =>
    match stack with
    | .array items :: fs => .ok (supply (.array items.reverse) fs)
    | _ => .error .malformed
  | .closeObject =>
    match stack with
    | .object members _ :: fs => .ok (supply (.object members.reverse) fs)
    | _ => .error .malformed
  | _ => .error .malformed

def step (limit : Nat) (stack : List Frame) : Awaiting → Token → Except Flaw Progress
  | .value, t => begin limit stack t
  | .itemOrClose, .closeArray => leave stack .closeArray
  | .itemOrClose, t => begin limit stack t
  | .keyOrClose, .closeObject => leave stack .closeObject
  | .keyOrClose, t => beginKey stack t
  | .key, t => beginKey stack t
  | .colon, .colon => .ok (.reading stack .value)
  | .colon, _ => .error .malformed
  | .commaOrClose, .comma =>
    match stack with
    | .object .. :: _ => .ok (.reading stack .key)
    | _ => .ok (.reading stack .value)
  | .commaOrClose, t => leave stack t

/-- Reads the value that these containers and what follows make up, each token as `see` shows it: the
value and the tokens behind it. -/
def take (see : Token → Token) (limit : Nat) (stack : List Frame) (awaiting : Awaiting) :
    List Token → Except Flaw (Value × List Token)
  | [] => .error .truncated
  | t :: ts =>
    match step limit stack awaiting (see t) with
    | .error flaw => .error flaw
    | .ok (.done v) => .ok (v, ts)
    | .ok (.reading stack awaiting) => take see limit stack awaiting ts

end Progress

def nestingLimit : Nat := 127

def Value.take (limit : Nat) (ts : List Token) : Except Flaw (Value × List Token) :=
  Progress.take id limit [] .value ts

def Value.ofTokens (ts : List Token) : Except Flaw Value :=
  match Value.take nestingLimit ts with
  | .ok (v, []) => .ok v
  | .ok (_, _ :: _) => .error .malformed
  | .error flaw => .error flaw

def parse (text : String) : Except Flaw Value := Value.ofTokens (tokens text.toList)

end GuidedDecoding.Json
