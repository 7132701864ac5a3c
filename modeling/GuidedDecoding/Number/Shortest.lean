/-!
# The shortest decimal text of a single

A decimal grid is the multiples of a power of ten. Among all decimals that read back as a given single, the
shortest lie on the coarsest grid that has any, and of those the nearest to the single is taken. `shortest?`
finds it by exact arithmetic, going from coarse grids to fine ones. `singleText` writes it out: positionally
from `1e-4` up to, but not including, `1e16`, and then with at least one place behind the point.
-/

namespace GuidedDecoding

/-- The positive number `mantissa * 2 ^ exponent` of a floating-point format. -/
structure BinaryNumber where
  mantissa : Nat
  exponent : Int
  /-- Whether the number below is only half as far away as the one above. -/
  narrowsBelow : Bool
  deriving DecidableEq, Repr

namespace BinaryNumber

def ofBits (bits : Nat) : BinaryNumber :=
  let fraction := bits % 0x800000
  match bits / 0x800000 with
  -- Without its leading bit a mantissa has the least exponent.
  | 0 => ⟨fraction, -149, false⟩
  -- Below a power of two the numbers lie twice as close, unless that is the least exponent.
  | field => ⟨0x800000 + fraction, (field : Int) - 150, fraction = 0 && 1 < field⟩

/-- Four units of the last place of the mantissa and one of the grid of `10 ^ place`, as a fraction. -/
def ratio (b : BinaryNumber) (place : Int) : Nat × Nat :=
  let power := b.exponent - 2
  (Nat.pow 2 power.toNat * Nat.pow 10 (-place).toNat,
    Nat.pow 2 (-power).toNat * Nat.pow 10 place.toNat)

/-- Whether `n * 10 ^ place` reads back as the number. A number halfway to the next reads as the one whose
mantissa is even. -/
def readsBack (b : BinaryNumber) (place : Int) (n : Nat) : Bool :=
  let (up, down) := b.ratio place
  -- These are the points halfway to the neighbours, in quarters of a unit of the last place.
  let low := (4 * b.mantissa - if b.narrowsBelow then 1 else 2) * up
  let high := (4 * b.mantissa + 2) * up
  if b.mantissa % 2 = 0 then low ≤ n * down && n * down ≤ high
  else low < n * down && n * down < high

/-- The point of the grid of `10 ^ place` that is nearest to the number among those that read back. -/
def nearest? (b : BinaryNumber) (place : Int) : Option Nat :=
  let (up, down) := b.ratio place
  let value := 4 * b.mantissa * up
  let below := value / down
  match b.readsBack place below, b.readsBack place (below + 1) with
  | true, true => some (if value - below * down < (below + 1) * down - value then below else below + 1)
  | true, false => some below
  | false, true => some (below + 1)
  | false, false => none

/-- The first of so many grids, from `place` to finer ones, with a point that reads back. -/
def shortestFrom? (b : BinaryNumber) (place : Int) : (grids : Nat) → Option (Nat × Int)
  | 0 => none
  | grids + 1 =>
    match b.nearest? place with
    | some n => some (n, place)
    | none => b.shortestFrom? (place - 1) grids

/-- The coarsest grid that can hold a single. -/
def coarsest : Int := 39

/-- How many grids there are from the coarsest one to that on which every single has a point of its own. -/
def gridCount : Nat := 96

/-- The shortest decimal that reads back: its digits as a number, and the place of the last one. -/
def shortest? (b : BinaryNumber) : Option (Nat × Int) := b.shortestFrom? coarsest gridCount

end BinaryNumber

def digitsOf (n : Nat) : List Char := Nat.toDigits 10 n

/-- A decimal written positionally, with at least one place behind the point. -/
def positional (digits : List Char) (place : Int) : List Char :=
  if 0 ≤ place then digits ++ List.replicate place.toNat '0' ++ ['.', '0']
  else
    let places := (-place).toNat
    let padded := List.replicate (places + 1 - digits.length) '0' ++ digits
    padded.take (padded.length - places) ++ '.' :: padded.drop (padded.length - places)

/-- A decimal written as a number with one digit in front of the point and a power of ten. -/
def scientific (digits : List Char) (place : Int) : List Char :=
  let power := place + digits.length - 1
  let sign := if power < 0 then ['-'] else []
  let front := match digits with
    | d :: e :: rest => d :: '.' :: e :: rest
    | ds => ds
  front ++ 'e' :: (sign ++ digitsOf power.natAbs)

def positiveText (bits : Nat) : List Char :=
  match (BinaryNumber.ofBits bits).shortest? with
  | none => ['0', '.', '0']
  | some (n, place) =>
    let digits := digitsOf n
    let power := place + digits.length - 1
    if -4 ≤ power ∧ power < 16 then positional digits place else scientific digits place

/-- The shortest text that reads back as a single. -/
def singleText (x : Float32) : String :=
  if x.isNaN then "NaN"
  else
    let bits := x.toBits.toNat
    let sign := if bits < 0x80000000 then [] else ['-']
    let bits := bits % 0x80000000
    let text :=
      if bits = 0x7F800000 then ['i', 'n', 'f']
      else if bits = 0 then ['0', '.', '0']
      else positiveText bits
    String.ofList (sign ++ text)

end GuidedDecoding
