import GuidedDecoding.Failure

/-!
# Text decoders

What turns tokens into text. A lexicon has one, which concatenates the bytes of its tokens, and so has a
tokenizer, which takes their surfaces through its decoding steps.
-/

namespace GuidedDecoding

/-- What turns tokens into text; it may fail. -/
structure TextDecoder where
  decode : List TokenId → Except Failure String

end GuidedDecoding
