import GuidedDecoding.TextDecoder

/-!
# Lexicons

A lexicon is a vocabulary together with what its tokens are for: how surfaces stand for bytes, which
tokens end a generation, and which are special, that is control marks that never appear as text. A stop
token is never special. A special token has no bytes; every other token has the bytes of its surface,
which the lexicon gives for all tokens at once or not at all.

`Lexicon.decode` turns ids into text: stop tokens, special tokens and ids outside the vocabulary
contribute nothing.
-/

namespace GuidedDecoding

def insertAscending (id : TokenId) : List TokenId → List TokenId
  | [] => [id]
  | a :: rest =>
    if id < a then id :: a :: rest else if id = a then a :: rest else a :: insertAscending id rest

theorem mem_insertAscending {id a : TokenId} {ids : List TokenId} :
    a ∈ insertAscending id ids ↔ a = id ∨ a ∈ ids := by
  fun_induction insertAscending id ids with
  | case1 => simp
  | case2 b rest => simp
  | case3 b rest => simp
  | case4 b rest _ _ ih =>
    rw [List.mem_cons, ih, List.mem_cons]
    exact or_left_comm

def ascending (ids : List TokenId) : List TokenId := ids.foldr insertAscending []

theorem mem_ascending {a : TokenId} {ids : List TokenId} : a ∈ ascending ids ↔ a ∈ ids := by
  induction ids with
  | nil => simp [ascending]
  | cons id ids ih =>
    have h : ascending (id :: ids) = insertAscending id (ascending ids) := rfl
    rw [h, mem_insertAscending, ih, List.mem_cons]

/-- A vocabulary with the roles of its tokens. -/
structure Lexicon where
  vocabulary : Vocabulary
  encoding : SurfaceEncoding := .plain
  stop : StopSet := .empty
  /-- The special tokens in ascending order. -/
  special : List TokenId := []
  /-- No special token ends a generation. -/
  special_not_stop : ∀ id ∈ special, id ∉ stop := by simp

instance : Inhabited Lexicon := ⟨{ vocabulary := default }⟩

namespace Lexicon

/-- The lexicon of a list of surfaces that are the text itself. -/
def ofSurfaces (surfaces : List String) (stop : List TokenId) : Lexicon where
  vocabulary := .ofArray surfaces.toArray
  stop := .ofList stop

/-- The lexicon with these special tokens instead of its own; stop tokens among them stay stop
tokens. -/
def withSpecial (l : Lexicon) (ids : List TokenId) : Lexicon :=
  { l with
    special := ascending (ids.filter (· ∉ l.stop))
    special_not_stop := fun id h => by
      rw [mem_ascending, List.mem_filter] at h
      simpa using h.2 }

def size (l : Lexicon) : Nat := l.vocabulary.size

/-- Whether a token ends a generation. -/
def isStop (l : Lexicon) (id : TokenId) : Bool := id ∈ l.stop

def isSpecial (l : Lexicon) (id : TokenId) : Bool := l.special.contains id

def bytesOf (l : Lexicon) (id : TokenId) (surface : String) : Except UnreadableSurface Bytes :=
  if l.isSpecial id then .ok [] else l.encoding.bytes surface

/-- The bytes of all tokens; a surface that cannot be read makes the vocabulary unusable. -/
def table (l : Lexicon) : Except Failure (Array Bytes) :=
  match l.vocabulary.surfaces.zipIdx.mapM fun (s, i) => l.bytesOf i.toUInt32 s with
  | .ok table => .ok table
  | .error e => .error (.setup (.unreadableVocabulary l.encoding e))

/-- The bytes that a token contributes to a text. -/
def contribution (l : Lexicon) (table : Array Bytes) (id : TokenId) : Bytes :=
  if l.isStop id then [] else table[id.toNat]?.getD []

/-- What turns tokens into text: stop tokens and special tokens contribute nothing to it. -/
def decoder (l : Lexicon) : TextDecoder :=
  -- The table is made once and not with every text.
  match l.table with
  | .ok table => ⟨fun ids => .ok (Utf8.decode (ids.flatMap (l.contribution table)))⟩
  | .error e => ⟨fun _ => .error e⟩

/-- The text of a sequence of tokens. -/
def decode (l : Lexicon) (ids : List TokenId) : Except Failure String := l.decoder.decode ids

end Lexicon

end GuidedDecoding
