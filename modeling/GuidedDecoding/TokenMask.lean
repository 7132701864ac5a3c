import GuidedDecoding.Vocabulary.Basic

/-!
# Token masks

A mask holds a set of token ids below a size, one bit for each id in words of 64 bits, and the number
of ids in the set. Ids at or beyond the size are never in the set, whatever is done to the mask.
-/

namespace GuidedDecoding

/-- A set of token ids below `size`. -/
structure TokenMask where
  words : Array UInt64
  size : Nat
  /-- The number of ids in the set. -/
  count : Nat
  deriving DecidableEq, Repr, Inhabited

namespace TokenMask

def wordCount (size : Nat) : Nat := (size + 63) / 64

def none (size : Nat) : TokenMask := ⟨Array.replicate (wordCount size) 0, size, 0⟩

def bit (id : TokenId) : UInt64 := 1 <<< (id.toUInt64 % 64)

def contains (m : TokenMask) (id : TokenId) : Bool :=
  id.toNat < m.size && (m.words[id.toNat / 64]?.getD 0) &&& bit id != 0

instance : Membership TokenId TokenMask := ⟨fun m id => m.contains id = true⟩

instance (id : TokenId) (m : TokenMask) : Decidable (id ∈ m) :=
  inferInstanceAs (Decidable (m.contains id = true))

/-- Adds an id, unless it is beyond the size. -/
def insert (m : TokenMask) (id : TokenId) : TokenMask :=
  if m.size ≤ id.toNat ∨ m.contains id then m
  else { m with words := m.words.modify (id.toNat / 64) (· ||| bit id), count := m.count + 1 }

def erase (m : TokenMask) (id : TokenId) : TokenMask :=
  if m.contains id then
    { m with words := m.words.modify (id.toNat / 64) (· &&& ~~~ bit id), count := m.count - 1 }
  else m

/-- The word at this place of a full mask: bits at or beyond the size are clear. -/
def fullWord (size place : Nat) : UInt64 :=
  -- The word of a mask that is not full is the last one, and holds the ids that are left.
  if (place + 1) * 64 ≤ size then 0xFFFFFFFFFFFFFFFF else (1 <<< (size % 64).toUInt64) - 1

/-- The mask of this size with every id below it. -/
def all (size : Nat) : TokenMask :=
  ⟨Array.ofFn fun i : Fin (wordCount size) => fullWord size i, size, size⟩

/-- The full or the empty mask of the same size. -/
def setAll (m : TokenMask) (full : Bool) : TokenMask := if full then all m.size else none m.size

/-- The mask of this size with the ids of a list that are below it. -/
def ofList (size : Nat) (ids : List TokenId) : TokenMask := ids.foldl insert (none size)

/-- The ids of the set in ascending order. -/
def toList (m : TokenMask) : List TokenId :=
  ((List.range m.size).map Nat.toUInt32).filter m.contains

/-- Scores with every entry whose id is not in the set at negative infinity. -/
def apply (m : TokenMask) (scores : List Float32) : List Float32 :=
  scores.mapIdx fun i x => if m.contains i.toUInt32 then x else Float32.ofBits 0xFF800000

end TokenMask

end GuidedDecoding
