import GuidedDecoding.Failure
import GuidedDecoding.Json.Reader

/-!
# Metadata of a model

A model comes with up to three documents: its configuration, the configuration of its tokenizer, and
the tokenizer itself. Of each only what a vocabulary needs is read; a field that is absent, or whose
content is of no use, is simply not there.

An index into the vocabulary is a JSON number. `vocabularyIndex?` accepts the natural numbers below
`2 ^ 64` and the doubles that are a natural number up to `2 ^ 64`, of which the last becomes the
greatest index.
-/

namespace GuidedDecoding

open Json (Value Reader Flaw)

structure ModelConfig where
  vocabularySize : Option Value := none
  modelType : Option String := none
  deriving Inhabited

structure TokenizerConfig where
  /-- The token that ends a sequence: its surface, or an object with the surface as `content`. -/
  endToken : Option Value := none
  deriving Inhabited

structure TokenizerModel where
  kind : Option String := none
  /-- Token ids by surface, or a list of surfaces or of lists that begin with one. -/
  vocabulary : Option Value := none
  deriving Inhabited

/-- A token defined beside the vocabulary. -/
structure AddedToken where
  id : Option Value := none
  content : Option Value := none
  special : Option Bool := none
  deriving Inhabited

/-- The decoder of a tokenizer, or a sequence of decoders. -/
inductive DecoderConfig where
  | mk (kind : Option String) (decoders : Option (List DecoderConfig))
  deriving Inhabited

structure TokenizerData where
  model : TokenizerModel := {}
  addedTokens : Option (List AddedToken) := none
  decoder : Option DecoderConfig := none
  deriving Inhabited

/-- The index that a JSON value names. -/
def vocabularyIndex? : Value → Option Nat
  | .number (.integer n) => if 0 ≤ n then some n.toNat else none
  | .number (.real x) =>
    -- The bound is a double, so `2 ^ 64` itself passes and then counts as the greatest index.
    (naturalValue? x).bind fun n => if n ≤ Nat.pow 2 64 then some (min n (Nat.pow 2 64 - 1)) else none
  | _ => none

def naturalNumber (n : Nat) : Value := .number (.integer n)

namespace ModelConfig

def ofVocabularySize (size : Nat) : ModelConfig := { vocabularySize := some (naturalNumber size) }

/-- The vocabulary size that is declared. -/
def declaredSize? (c : ModelConfig) : Option Nat := c.vocabularySize.bind vocabularyIndex?

end ModelConfig

namespace TokenizerConfig

/-- A configuration with this end token. -/
def ofEndToken (surface : String) : TokenizerConfig := { endToken := some (.text surface) }

/-- The surface of the end token. -/
def endSurface? (c : TokenizerConfig) : Option String :=
  match c.endToken with
  | some (.text s) => some s
  | some (.object members) => (Value.member? "content" members).bind Value.text?
  | _ => none

end TokenizerConfig

/-- An added token with this id and surface. -/
def AddedToken.of (id : Nat) (surface : String) : AddedToken :=
  { id := some (naturalNumber id), content := some (.text surface) }

namespace DecoderConfig

def kind : DecoderConfig → Option String
  | .mk kind _ => kind

def decoders : DecoderConfig → Option (List DecoderConfig)
  | .mk _ decoders => decoders

def ofKind (kind : String) : DecoderConfig := .mk (some kind) none

def sequence (decoders : List DecoderConfig) : DecoderConfig := .mk (some "Sequence") (some decoders)

end DecoderConfig

/-! ### Reading -/

/-- A field that may be absent or `null`. -/
def optionalField (name : String) (isSet : σ → Bool) (set : σ → Option α → σ) (read : Reader α) :
    Reader.Field σ where
  name := name
  isSet := isSet
  read s := Reader.refine (Reader.optional read) fun a => some (set s a)

def ModelConfig.reader : Reader ModelConfig :=
  Reader.record (none, none)
    [ optionalField "vocab_size" (·.1.isSome) (fun s a => (some a, s.2)) Reader.value,
      optionalField "model_type" (·.2.isSome) (fun s a => (s.1, some a)) Reader.text ]
    fun (size, kind) => some ⟨size.join, kind.join⟩

def TokenizerConfig.reader : Reader TokenizerConfig :=
  Reader.record none
    [ optionalField "eos_token" Option.isSome (fun _ a => some a) Reader.value ]
    fun token => some ⟨token.join⟩

def TokenizerModel.reader : Reader TokenizerModel :=
  Reader.record (none, none)
    [ optionalField "type" (·.1.isSome) (fun s a => (some a, s.2)) Reader.text,
      optionalField "vocab" (·.2.isSome) (fun s a => (s.1, some a)) Reader.value ]
    fun (kind, vocabulary) => some ⟨kind.join, vocabulary.join⟩

def AddedToken.reader : Reader AddedToken :=
  Reader.record (none, none, none)
    [ optionalField "id" (·.1.isSome) (fun s a => (some a, s.2)) Reader.value,
      optionalField "content" (·.2.1.isSome) (fun s a => (s.1, some a, s.2.2)) Reader.value,
      optionalField "special" (·.2.2.isSome) (fun s a => (s.1, s.2.1, some a)) Reader.bool ]
    fun (id, content, special) => some ⟨id.join, content.join, special.join⟩

/-- Reads a decoder whose sequences nest at most `depth` deep, which the limit on open containers
ensures for `depth` beyond that limit. -/
def DecoderConfig.readerWithin : (depth : Nat) → Reader DecoderConfig
  | 0 => fun _ _ => .error .malformed
  | depth + 1 =>
    Reader.record (none, none)
      [ optionalField "type" (·.1.isSome) (fun s a => (some a, s.2)) Reader.text,
        optionalField "decoders" (·.2.isSome) (fun s a => (s.1, some a))
          (Reader.list (DecoderConfig.readerWithin depth)) ]
      fun (kind, decoders) => some (.mk kind.join decoders.join)

def DecoderConfig.reader : Reader DecoderConfig := fun limit => readerWithin (limit + 1) limit

def TokenizerData.reader : Reader TokenizerData :=
  Reader.record (none, none, none)
    [ { name := "model"
        isSet := (·.1.isSome)
        read := fun s => Reader.refine TokenizerModel.reader fun a => some (some a, s.2) },
      optionalField "added_tokens" (·.2.1.isSome) (fun s a => (s.1, some a, s.2.2))
        (Reader.list AddedToken.reader),
      optionalField "decoder" (·.2.2.isSome) (fun s a => (s.1, s.2.1, some a))
        DecoderConfig.reader ]
    fun (model, added, decoder) => some ⟨model.getD {}, added.join, decoder.join⟩

def readDocument (reader : Reader α) (text : String) : Except Failure α :=
  match Json.read reader text with
  | .ok a => .ok a
  | .error flaw => .error (.document flaw)

/-! ### Model directories -/

/-- The text files of a directory, by name. -/
structure Directory where
  path : String
  files : List (String × String)
  deriving Inhabited

def Directory.file? (d : Directory) (name : String) : Option String :=
  (d.files.find? (·.1 == name)).map (·.2)

structure ModelFiles where
  modelConfig : Option ModelConfig := none
  tokenizerConfig : Option TokenizerConfig := none
  tokenizer : TokenizerData := {}
  deriving Inhabited

/-- Reads the metadata of a model directory. The tokenizer must be there; the configurations need not,
and one that cannot be read is not there either. -/
def ModelFiles.load (d : Directory) : Except Failure ModelFiles :=
  match d.file? "tokenizer.json" with
  | none => .error (.setup (.tokenizerNotFound d.path))
  | some text =>
    match readDocument TokenizerData.reader text with
    | .error e => .error e
    | .ok tokenizer => .ok {
        modelConfig := (d.file? "config.json").bind fun t =>
          (Json.read ModelConfig.reader t).toOption
        tokenizerConfig := (d.file? "tokenizer_config.json").bind fun t =>
          (Json.read TokenizerConfig.reader t).toOption
        tokenizer := tokenizer }

end GuidedDecoding
