import GuidedDecoding.Failure
import GuidedDecoding.Tensor

/-!
# Language models

A model reads tokens and scores what may come next. What it has read it keeps in a cache, and it depends on
nothing else.
-/

namespace GuidedDecoding

/-- A model; `κ` is its cache. -/
structure LanguageModel (κ : Type) where
  /-- The cache in which nothing has been read. -/
  emptyCache : κ
  /-- Reads tokens behind those in the cache, and scores what may follow each of them. The cache may change
  even if the model fails. -/
  forward : List TokenId → κ → κ × Except Failure Tensor

namespace LanguageModel

variable {κ : Type}

/-- Reads several lists of tokens until one fails, and drops the scores. -/
def read (m : LanguageModel κ) : List (List TokenId) → κ → κ × Except Failure Unit
  | [], cache => (cache, .ok ())
  | ids :: rest, cache =>
    match m.forward ids cache with
    | (cache, .ok _) => m.read rest cache
    | (cache, .error e) => (cache, .error e)

end LanguageModel

end GuidedDecoding
