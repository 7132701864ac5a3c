import GuidedDecoding.Text.Utf8

/-!
# Token ids, vocabularies and stop sets

A vocabulary assigns to each id below its size one surface string; an id that no token uses holds the
empty string. It has at least one slot. A stop set lists ids in the order in which they were named,
each once.
-/

namespace GuidedDecoding

abbrev TokenId := UInt32

/-- Surface strings by token id. -/
structure Vocabulary where
  surfaces : Array String
  size_pos : 0 < surfaces.size

namespace Vocabulary

/-- The vocabulary of a list of surfaces; an empty list makes one empty slot. -/
def ofArray (surfaces : Array String) : Vocabulary :=
  if h : 0 < surfaces.size then ⟨surfaces, h⟩ else ⟨#[""], by decide⟩

def size (v : Vocabulary) : Nat := v.surfaces.size

def isEmpty (v : Vocabulary) : Bool := v.surfaces.isEmpty

/-- No vocabulary is empty. -/
@[simp] theorem isEmpty_eq_false (v : Vocabulary) : v.isEmpty = false := by
  rw [isEmpty, Array.isEmpty_eq_false_iff]
  exact Array.ne_empty_of_size_pos v.size_pos

def surface? (v : Vocabulary) (id : TokenId) : Option String := v.surfaces[id.toNat]?

/-- The first id with this surface. The empty string names no token. -/
def find? (v : Vocabulary) (s : String) : Option TokenId :=
  if s.isEmpty then none else (v.surfaces.findIdx? (· == s)).map Nat.toUInt32

instance : Inhabited Vocabulary := ⟨ofArray #[]⟩

end Vocabulary

/-- Ids in the order of their first mention. -/
structure StopSet where
  ids : List TokenId
  nodup : ids.Nodup := by simp

namespace StopSet

def empty : StopSet := ⟨[], List.nodup_nil⟩

instance : Inhabited StopSet := ⟨empty⟩

instance : Membership TokenId StopSet := ⟨fun s id => id ∈ s.ids⟩

instance (id : TokenId) (s : StopSet) : Decidable (id ∈ s) :=
  inferInstanceAs (Decidable (id ∈ s.ids))

/-- Adds an id behind the others, unless it is there already. -/
def insert (s : StopSet) (id : TokenId) : StopSet :=
  if h : id ∈ s.ids then s
  else ⟨s.ids ++ [id], by
    rw [List.nodup_append]
    refine ⟨s.nodup, by simp, ?_⟩
    intro a ha b hb
    rw [List.mem_singleton] at hb
    rintro rfl
    exact h (hb ▸ ha)⟩

def ofList (ids : List TokenId) : StopSet := ids.foldl insert empty

def size (s : StopSet) : Nat := s.ids.length

def isEmpty (s : StopSet) : Bool := s.ids.isEmpty

end StopSet

end GuidedDecoding
