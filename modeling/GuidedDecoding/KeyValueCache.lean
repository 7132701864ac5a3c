import GuidedDecoding.Tensor

/-!
# Key and value caches

What a model keeps of the positions it has seen: for each of its layers the keys and the values, which grow
along the dimension of positions, the third one.
-/

namespace GuidedDecoding

/-- The dimension along which positions follow each other. -/
def positionAxis : Nat := 2

/-- The keys and the values of one layer, once there are any. -/
structure LayerCache where
  content : Option (Tensor × Tensor) := none

namespace LayerCache

def isEmpty (c : LayerCache) : Bool := c.content.isNone

/-- The number of positions; keys of fewer than three dimensions have none to count. -/
def length? (c : LayerCache) : Option Nat :=
  match c.content with
  | none => some 0
  | some (key, _) => key.dims[positionAxis]?

/-- Adds keys and values behind the others; the result is all of them. If either does not fit, nothing
changes. -/
def append (c : LayerCache) (key value : Tensor) : LayerCache × Except Failure (Tensor × Tensor) :=
  let joined : Except Failure (Tensor × Tensor) := match c.content with
    | none => .ok (key, value)
    | some (keys, values) => do
      let keys ← keys.join positionAxis key
      let values ← values.join positionAxis value
      return (keys, values)
  match joined with
  | .ok content => ({ content := some content }, .ok content)
  | .error e => (c, .error e)

end LayerCache

structure KeyValueCache where
  layers : List LayerCache

namespace KeyValueCache

def empty (layers : Nat) : KeyValueCache := ⟨List.replicate layers {}⟩

def layer? (c : KeyValueCache) (i : Nat) : Option LayerCache := c.layers[i]?

/-- The number of positions, which the first layer tells. -/
def length? (c : KeyValueCache) : Option Nat :=
  match c.layers.head? with
  | some l => l.length?
  | none => some 0

/-- Whether no position has been seen, which the first layer tells. -/
def isEmpty (c : KeyValueCache) : Bool := c.layers.head?.all LayerCache.isEmpty

/-- Adds keys and values to a layer; there is no answer for a layer that does not exist. -/
def append? (c : KeyValueCache) (i : Nat) (key value : Tensor) :
    Option (KeyValueCache × Except Failure (Tensor × Tensor)) :=
  (c.layer? i).map fun l =>
    let (l, result) := l.append key value
    (⟨c.layers.set i l⟩, result)

end KeyValueCache

end GuidedDecoding
