/-!
# The ChaCha generator

A deterministic source of 32-bit words: blocks of sixteen words that twelve rounds of ChaCha make of a key
and a block number, one block after the other. A seed of 64 bits is stretched to a key by a permuted
congruential generator.
-/

namespace GuidedDecoding.Random

def rotateLeft (x by_ : UInt32) : UInt32 := (x <<< by_) ||| (x >>> (32 - by_))

abbrev Block := Vector UInt32 16

def quarterRound (s : Block) (a b c d : Fin 16) : Block :=
  let mix (s : Block) (a b d : Fin 16) (turn : UInt32) : Block :=
    let sum := s[a] + s[b]
    let s := s.set a sum
    s.set d (rotateLeft (s[d] ^^^ sum) turn)
  mix (mix (mix (mix s a b d 16) c d b 12) a b d 8) c d b 7

def doubleRound (s : Block) : Block :=
  let s := quarterRound s 0 4 8 12
  let s := quarterRound s 1 5 9 13
  let s := quarterRound s 2 6 10 14
  let s := quarterRound s 3 7 11 15
  let s := quarterRound s 0 5 10 15
  let s := quarterRound s 1 6 11 12
  let s := quarterRound s 2 7 8 13
  quarterRound s 3 4 9 14

/-- The words before the rounds: constants, the key and the number of the block. -/
def opening (key : Vector UInt32 8) (number : UInt64) : Block :=
  #v[0x61707865, 0x3320646E, 0x79622D32, 0x6B206574,
    key[0], key[1], key[2], key[3], key[4], key[5], key[6], key[7],
    number.toUInt32, (number >>> 32).toUInt32, 0, 0]

def block (key : Vector UInt32 8) (number : UInt64) : Block :=
  let start := opening key number
  start.zipWith (· + ·) (Nat.repeat doubleRound 6 start)

/-- A generator: its key, the number of the next block, and the words of the last one still to be given
out. -/
structure Generator where
  key : Vector UInt32 8
  number : UInt64 := 0
  pending : List UInt32 := []
  deriving DecidableEq, Repr

namespace Generator

def next (g : Generator) : UInt32 × Generator :=
  match g.pending with
  | w :: rest => (w, { g with pending := rest })
  | [] =>
    let words := block g.key g.number
    (words[0], { g with number := g.number + 1, pending := words.toList.tail })

/-- One step of the congruential generator. -/
def advance (state : UInt64) : UInt64 := state * 6364136223846793005 + 11634580027462260723

/-- The word that a state of the congruential generator gives. -/
def permute (state : UInt64) : UInt32 :=
  let folded := (((state >>> 18) ^^^ state) >>> 27).toUInt32
  -- The upper bits of the state say how far the folded ones are turned.
  let turn := (state >>> 59).toUInt32
  (folded >>> turn) ||| (folded <<< ((32 - turn) % 32))

def ofSeed (seed : UInt64) : Generator where
  key := Vector.ofFn fun i : Fin 8 => permute (Nat.repeat advance (i + 1) seed)

end Generator

end GuidedDecoding.Random
