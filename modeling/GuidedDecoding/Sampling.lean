import GuidedDecoding.Number.Exponential
import GuidedDecoding.Parameters
import GuidedDecoding.Random.ChaCha

/-!
# Sampling

A sampler chooses a token from scores. Scores of negative infinity have no probability and are never
chosen. The sampler of `SamplingParams` takes the best score, or draws from the tokens that temperature,
`topK` and `topP` leave, with their probabilities as weights.

All arithmetic is that of single-precision numbers in the order given here.
-/

namespace GuidedDecoding

/-- Chooses tokens; `ρ` is what it keeps from one choice to the next. -/
structure Sampler (ρ : Type) where
  sample : ρ → List Float32 → ρ × Except Failure TokenId

namespace Sampling

/-- The greater number by `<`, which a number that is none never wins or loses. -/
def better (best x : Float32) : Float32 := if best < x then x else best

/-- The place of the first greatest score from `place` on, where `best` stands at `winner`. -/
def bestFrom (winner : Nat) (best : Float32) (place : Nat) : List Float32 → Nat
  | [] => winner
  | x :: rest =>
    if best < x then bestFrom place x (place + 1) rest else bestFrom winner best (place + 1) rest

/-- The token with the best score, the first one among equals. -/
def best (first : Float32) (others : List Float32) : TokenId := (bestFrom 0 first 1 others).toUInt32

def scale (temperature : Float32) (scores : List Float32) : List Float32 :=
  let factor := narrow (1 / widen temperature)
  -- The sum with zero belongs to the scaling: it makes a negative zero positive.
  scores.map fun x => x * factor + 0

def probabilities : List Float32 → List Float32
  | [] => []
  | x :: rest =>
    -- The best score is taken off each, so that no weight exceeds one.
    let top := rest.foldl better x
    let weights := (x :: rest).map fun y => exponential (y - top)
    let total := weights.foldl (· + ·) 0
    weights.map (· / total)

structure Candidate where
  token : TokenId
  probability : Float32

/-- The tokens with a probability, most probable first; equals stay in the order of their ids. -/
def ranked (probabilities : List Float32) : List Candidate :=
  let all := probabilities.mapIdx fun i p => Candidate.mk i.toUInt32 p
  (all.filter fun c => 0 < c.probability && c.probability.isFinite).mergeSort
    fun a b => decide (b.probability ≤ a.probability)

/-- The first candidates whose probabilities add up to a share, and at least one. -/
def headShare (share sum : Float32) : List Candidate → List Candidate
  | [] => []
  | c :: rest =>
    let sum := sum + c.probability
    if share ≤ sum then [c] else c :: headShare share sum rest

def candidates (p : SamplingParams) (scaled : List Float32) : List Candidate :=
  let all := ranked (probabilities scaled)
  let top := if 0 < p.topK then all.take p.topK else all
  if p.topP < 1 then headShare p.topP 0 top else top

/-- The sums of all weights before each one but the first, and the sum of all. -/
def runningSums (sum : Float32) : List Float32 → List Float32 × Float32
  | [] => ([], sum)
  | w :: rest =>
    let (sums, total) := runningSums (sum + w) rest
    (sum :: sums, total)

/-- The greatest number below one that a draw gives. -/
def topFraction : Float32 := Float32.ofBits 0x3F7FFFFE

/-- The greatest width, from `width` downward, for which no draw reaches `total`. -/
def drawWidth (total : Float32) : Nat → Float32 → Float32
  | 0, width => width
  | fuel + 1, width =>
    if total ≤ width * topFraction + 0 then
      -- The bits of a positive number less one are those of the number below it.
      drawWidth total fuel (Float32.ofBits (width.toBits - 1))
    else width

/-- The fraction of a word: its upper 23 bits behind the point. -/
def fraction (word : UInt32) : Float32 := Float32.ofBits ((0x3F800000 : UInt32) ||| (word >>> 9)) - 1

/-- The place that a word draws from weights, of which there is at least one. -/
def drawPlace (first : Float32) (others : List Float32) (word : UInt32) : Nat :=
  let (sums, total) := runningSums first others
  -- The width shrinks by one pattern of bits at a time, so the bits of the total are fuel enough.
  let draw := fraction word * drawWidth total total.toBits.toNat total + 0
  (sums.filter fun s => decide (s ≤ draw)).length

def draw (g : Random.Generator) (cs : List Candidate) : Random.Generator × Except Failure TokenId :=
  match cs with
  | [] => (g, .error (.sampling .noCandidate))
  | c :: rest =>
    let (word, g) := g.next
    let place := drawPlace c.probability (rest.map (·.probability)) word
    (g, .ok ((c :: rest)[place]?.getD c).token)

/-- The sampler of some parameters. A temperature so low that a scaled score overflows means that the best
score wins. There must be a score. -/
def sampler (p : SamplingParams) : Sampler Random.Generator where
  sample g
    | [] => (g, .error (.tensor .shape))
    | x :: rest =>
      let scaled := scale p.temperature (x :: rest)
      -- `0x7F800000` is positive infinity; negative infinity is the score of a masked token.
      let overflows := scaled.any fun y => y.isNaN || y == Float32.ofBits 0x7F800000
      if p.isGreedy || overflows then (g, .ok (best x rest)) else draw g (candidates p scaled)

/-- The generator that the sampler of some parameters starts with; without a seed any will do. -/
def generator (p : SamplingParams) : Random.Generator := .ofSeed (p.seed.getD 0).toUInt64

end Sampling

end GuidedDecoding
