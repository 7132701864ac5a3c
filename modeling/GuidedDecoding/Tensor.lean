import GuidedDecoding.Failure
import GuidedDecoding.Number.Width

/-!
# Tensors

Blocks of numbers of one kind with any number of dimensions, the numbers in row-major order. There are the
few operations that generation needs: taking a row, joining two blocks along one dimension, and the scores
of the last position of a model's output.
-/

namespace GuidedDecoding

inductive ElementKind where
  | half
  /-- The upper half of a single. -/
  | bfloat
  | single
  | double
  | word32
  | integer64
  | byte
  deriving DecidableEq, Repr

abbrev ElementKind.Element : ElementKind → Type
  | .half | .bfloat => UInt16
  | .single => Float32
  | .double => Float
  | .word32 => UInt32
  | .integer64 => Int64
  | .byte => UInt8

def ElementKind.toSingle : (k : ElementKind) → k.Element → Float32
  | .half, bits => widenShort halfFormat bits.toBitVec
  | .bfloat, bits => widenShort bfloatFormat bits.toBitVec
  | .single, x => x
  | .double, x => narrow x
  | .word32, n => .ofNat n.toNat
  | .integer64, n => .ofInt n.toInt
  | .byte, n => .ofNat n.toNat

structure Tensor where
  kind : ElementKind
  /-- The size of each dimension. -/
  dims : List Nat
  elements : List kind.Element

namespace Tensor

def volume (dims : List Nat) : Nat := dims.foldr (· * ·) 1

def ofList (kind : ElementKind) (dims : List Nat) (elements : List kind.Element) :
    Except Failure Tensor :=
  if elements.length = volume dims then .ok ⟨kind, dims, elements⟩ else .error (.tensor .shape)

def ofSingles (xs : List Float32) : Tensor := ⟨.single, [xs.length], xs⟩

def fill (kind : ElementKind) (dims : List Nat) (x : kind.Element) : Tensor :=
  ⟨kind, dims, List.replicate (volume dims) x⟩

def singles (t : Tensor) : List Float32 := t.elements.map t.kind.toSingle

/-- The part of a block at an index of its first dimension. -/
def row (t : Tensor) (i : Nat) : Except Failure Tensor :=
  match t.dims with
  | [] => .error (.tensor .rank)
  | size :: dims =>
    if i < size then
      .ok ⟨t.kind, dims, (t.elements.drop (i * volume dims)).take (volume dims)⟩
    else .error (.tensor .index)

/-- The pieces of this length that a list falls into, so many of them. -/
def pieces {α : Type} (length : Nat) : Nat → List α → List (List α)
  | 0, _ => []
  | count + 1, xs => xs.take length :: pieces length count (xs.drop length)

/-- Two blocks joined along a dimension. All other dimensions and the kinds of elements must agree. -/
def join (axis : Nat) (a b : Tensor) : Except Failure Tensor :=
  if a.dims.length ≤ axis then .error (.tensor .rank)
  else if a.dims.length ≠ b.dims.length then .error (.tensor .rank)
  else if a.dims.eraseIdx axis ≠ b.dims.eraseIdx axis then .error (.tensor .shape)
  else if h : b.kind = a.kind then
    -- Both blocks fall into as many pieces, which are joined one by one.
    let count := volume (a.dims.take axis)
    let left := pieces (volume (a.dims.drop axis)) count a.elements
    let right := pieces (volume (b.dims.drop axis)) count (h ▸ b.elements)
    .ok ⟨a.kind, a.dims.modify axis (· + (b.dims[axis]?.getD 0)),
      (left.zipWith (· ++ ·) right).flatten⟩
  else .error (.tensor .kind)

/-- The scores of the last position of a model's output, which is a row of scores, a row for each
position, or one such block. -/
def lastScores (t : Tensor) : Except Failure (List Float32) :=
  match t.dims with
  | [_] => .ok t.singles
  | [positions, _] => (t.row (positions - 1)).map singles
  | [_, positions, _] => ((t.row 0).bind (·.row (positions - 1))).map singles
  | dims => .error (.model (.unsupportedRank dims.length))

end Tensor

/-- The input of a model for some tokens: one row of ids. -/
def inputTensor (ids : List TokenId) : Tensor := ⟨.word32, [1, ids.length], ids⟩

end GuidedDecoding
