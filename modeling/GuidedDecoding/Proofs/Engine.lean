import GuidedDecoding.Engine
import GuidedDecoding.Proofs.Json.Skip
import GuidedDecoding.Proofs.Session.StopTokens
import GuidedDecoding.Proofs.Session.Stream
import GuidedDecoding.Tokenizer.Words

/-!
# The text of a request

Where a request ends by a stop token, that token is the last one of the result and there is no other. Whether it
is part of the text depends on what the engine was set up from. A lexicon leaves stop tokens out of its texts
(`Engine.text_of_lexicon`). A tokenizer knows nothing of them; it leaves out special tokens, and a token that
ends a generation need not be special. So the text that an engine of a model directory gives has the end mark in
it unless that is special, whatever kind of tokenizer it has (`Engine.text_of_directory`).
-/

namespace GuidedDecoding

open Json (Value bind_eq_ok_iff)

/-! ### Texts of tokens -/

namespace Tokenizer

variable {t : Tokenizer} {ids : List TokenId} {id : TokenId}

/-- The tokens that a text without special tokens is made of. -/
def shown (t : Tokenizer) (ids : List TokenId) : List TokenId := ids.filter fun id => !t.isSpecial id

theorem text?_shown (t : Tokenizer) (ids : List TokenId) : t.text? ids true = t.text? (t.shown ids) false :=
  t.text?_skipping ids

theorem shown_concat_of_special (h : t.isSpecial id = true) : t.shown (ids ++ [id]) = t.shown ids := by
  simp [shown, h]

theorem shown_concat_of_not_special (h : t.isSpecial id = false) : t.shown (ids ++ [id]) = t.shown ids ++ [id] := by
  simp [shown, h]

/-- A special token at the end makes no difference to a text without special tokens. -/
theorem text?_concat_of_special (h : t.isSpecial id = true) : t.text? (ids ++ [id]) true = t.text? ids true := by
  rw [text?_shown, shown_concat_of_special h, text?_shown]

end Tokenizer

/-- A stop token at the end adds nothing to the text that a lexicon gives. -/
theorem Lexicon.decode_concat {l : Lexicon} {ids : List TokenId} {id : TokenId} (h : id ∈ l.stop) :
    l.decode (ids ++ [id]) = l.decode ids := by
  rw [decode, decode, decoder]
  cases l.table with
  | error e => rfl
  | ok table =>
    show Except.ok (Utf8.decode _) = _
    rw [List.flatMap_append, List.flatMap_singleton, contribution_of_isStop (isStop_iff.mpr h), List.append_nil]

namespace Engine

variable {κ σ : Type} {read? : String → Option Tokenizer} {directory : String → Directory} {setup : EngineSetup κ}
  {e : Engine κ} {request : Request κ} {observe : Observer σ} {limit : Nat} {seen : σ}
  {c : Collected κ Random.Generator σ} {done : Completion}

/-! ### Setting up -/

/-- An engine that is not set up from a lexicon has a tokenizer. -/
theorem exists_tokenizer (h : build read? directory setup = .ok e) (hsetup : setup.lexicon = none) :
    ∃ t, e.tokenizer = some t := by
  unfold build at h
  rw [hsetup] at h
  -- `build` asks for one thing after the other, and fails at the first that is missing
  cases hmodel : setup.model with
  | none =>
    rw [hmodel] at h
    cases h
  | some model =>
    rw [hmodel] at h
    cases hpath : setup.config.modelDirectory with
    | none =>
      rw [hpath] at h
      cases h
    | some path =>
      rw [hpath] at h
      dsimp only at h
      cases hfiles : ModelFiles.load (directory path) with
      | error e' =>
        rw [hfiles] at h
        cases h
      | ok files =>
        rw [hfiles] at h
        cases ht : Tokenizer.load read? (directory path) with
        | error e' =>
          rw [ht] at h
          cases h
        | ok t =>
          rw [ht] at h
          cases h
          exact ⟨t, rfl⟩

/-- An engine that is set up from a lexicon has no tokenizer. -/
theorem lexicon_of_build {l : Lexicon} (h : build read? directory setup = .ok e) (hsetup : setup.lexicon = some l) :
    e.lexicon = l ∧ e.tokenizer = none := by
  unfold build at h
  rw [hsetup] at h
  cases hmodel : setup.model with
  | none =>
    rw [hmodel] at h
    cases h
  | some model =>
    rw [hmodel] at h
    cases h
    exact ⟨rfl, rfl⟩

/-- A change of the errors does not touch a result. -/
theorem eq_ok_of_mapError {ε ε' α : Type} {x : Except ε α} {f : ε → ε'} {a : α} (h : x.mapError f = .ok a) :
    x = .ok a := by
  cases x with
  | error e => cases h
  | ok a' => exact congrArg Except.ok (Except.ok.inj h)

/-- What a request becomes: a session of some input under a matcher over the lexicon of the engine, perhaps with
another cache. -/
theorem session_eq_ok {s : Session κ Random.Generator} (h : e.session request = .ok s) :
    ∃ constraint m input started, Matcher.start e.lexicon constraint = .ok m ∧
      Session.sampled e.model m e.decoder request.params input = .ok started ∧
      ∃ cache, s = started.withCache cache := by
  obtain ⟨input, -, h⟩ := bind_eq_ok_iff.mp h
  obtain ⟨constraint, -, h⟩ := bind_eq_ok_iff.mp h
  obtain ⟨m, hm, h⟩ := bind_eq_ok_iff.mp h
  obtain ⟨started, hstarted, h⟩ := bind_eq_ok_iff.mp h
  refine ⟨constraint, m, input, started, eq_ok_of_mapError hm, eq_ok_of_mapError hstarted, ?_⟩
  -- a cache that comes with the request takes the place of that of the start
  cases hcache : request.cache with
  | none =>
    rw [hcache] at h
    exact ⟨started.cache, (Except.ok.inj h).symm⟩
  | some cache =>
    rw [hcache] at h
    exact ⟨cache, (Except.ok.inj h).symm⟩

/-! ### Results -/

/-- What ends by a stop token has it at its end, and nowhere else; the text is that of all tokens. -/
theorem of_execute (hrun : e.execute observe limit seen request = .ok c) (hdone : c.result = some (.ok done))
    (hreason : done.stopReason = .stopToken) :
    ∃ front last, done.tokens = front ++ [last] ∧ last ∈ e.lexicon.stop ∧ (∀ id ∈ front, id ∉ e.lexicon.stop) ∧
      e.decoder.decode (front ++ [last]) = .ok done.text := by
  unfold execute at hrun
  rcases hs : e.session request with e' | s
  · rw [hs] at hrun
    cases hrun
  · rw [hs] at hrun
    cases hrun
    obtain ⟨constraint, m, input, started, hm, hstart, cache, rfl⟩ := session_eq_ok hs
    obtain ⟨-, r, -, rfl⟩ := Matcher.start_eq_ok hm
    -- the invariant holds from the start on with any cache, so it holds at the end of the run
    have hstops := Session.run_induction (P := fun s => s.Stops e.lexicon e.decoder)
      (fun s seen h => h.nextWith observe seen) (Session.stops_start hstart cache) limit seen
    rcases Session.result_collect? observe limit seen _ _ hdone with ⟨e', hresult, -⟩ | ⟨-, -, hresult⟩
    · cases hresult
    · exact hstops.of_completion hresult.symm hreason

/-- An engine that is set up from a lexicon gives texts without the stop token. -/
theorem text_of_lexicon {l : Lexicon} (hbuild : build read? directory setup = .ok e) (hsetup : setup.lexicon = some l)
    (hrun : e.execute observe limit seen request = .ok c) (hdone : c.result = some (.ok done))
    (hreason : done.stopReason = .stopToken) :
    ∃ front last, done.tokens = front ++ [last] ∧ last ∈ l.stop ∧ (∀ id ∈ front, id ∉ l.stop) ∧
      l.decode front = .ok done.text := by
  obtain ⟨front, last, htokens, hlast, hfront, htext⟩ := of_execute hrun hdone hreason
  obtain ⟨rfl, htokenizer⟩ := lexicon_of_build hbuild hsetup
  refine ⟨front, last, htokens, hlast, hfront, ?_⟩
  rw [decoder, htokenizer] at htext
  rw [← Lexicon.decode_concat hlast]
  exact htext

/-- An engine of a model directory gives the text that its tokenizer makes of all tokens, the stop token at the
end among them. It is the text of the other tokens if the stop token is special. If it is not, the stop token is the
last one of those that the text is made of. -/
theorem text_of_directory (hbuild : build read? directory setup = .ok e) (hsetup : setup.lexicon = none)
    (hrun : e.execute observe limit seen request = .ok c) (hdone : c.result = some (.ok done))
    (hreason : done.stopReason = .stopToken) :
    ∃ t front last, e.tokenizer = some t ∧ done.tokens = front ++ [last] ∧ last ∈ e.lexicon.stop ∧
      (∀ id ∈ front, id ∉ e.lexicon.stop) ∧ t.text? (front ++ [last]) true = some done.text ∧
      (t.isSpecial last = true → t.text? front true = some done.text) ∧
      (t.isSpecial last = false → t.text? (t.shown front ++ [last]) false = some done.text) := by
  obtain ⟨front, last, htokens, hlast, hfront, htext⟩ := of_execute hrun hdone hreason
  obtain ⟨t, ht⟩ := exists_tokenizer hbuild hsetup
  rw [decoder, ht] at htext
  have hwhole : t.text? (front ++ [last]) true = some done.text := Tokenizer.decode_eq_ok_iff.mp htext
  refine ⟨t, front, last, ht, htokens, hlast, hfront, hwhole, ?_, ?_⟩
  · intro hspecial
    rw [← Tokenizer.text?_concat_of_special hspecial]
    exact hwhole
  · intro hspecial
    rw [← Tokenizer.shown_concat_of_not_special hspecial, ← Tokenizer.text?_shown]
    exact hwhole

/-! ### Two end marks, of which one is special -/

/-- Two words, and an added token that is special. -/
def hiDocument : String :=
  "\x7b\"added_tokens\":[\x7b\"id\":2,\"content\":\"</s>\",\"special\":true,\"single_word\":false," ++
    "\"lstrip\":false,\"rstrip\":false,\"normalized\":false\x7d]," ++
    "\"model\":\x7b\"vocab\":\x7b\"END\":1,\"hi\":0\x7d,\"unk_token\":\"hi\"\x7d\x7d"

def hiVocabulary : Value := .object [("END", .number (.integer 1)), ("hi", .number (.integer 0))]

def hiModel : Value := .object [("vocab", hiVocabulary), ("unk_token", .text "hi")]

def hiMark : Value :=
  .object [("id", .number (.integer 2)), ("content", .text "</s>"), ("special", .bool true),
    ("single_word", .bool false), ("lstrip", .bool false), ("rstrip", .bool false), ("normalized", .bool false)]

def hiDirectory : Directory := ⟨"words", [("tokenizer.json", hiDocument)]⟩

def hiFiles : ModelFiles where
  tokenizer :=
    { model := ⟨none, some hiVocabulary⟩
      addedTokens := some [⟨some (.number (.integer 2)), some (.text "</s>"), some true⟩] }

def hiTokenizer : WordTokenizer where
  words := [("END", 1), ("hi", 0)]
  unknown := "hi"
  added := [⟨"</s>", 2, true⟩]
  splitsAtBlanks := false
  decoding := none

/-- A model that has `hi` come first, and behind it `END` if the prompt was `hi`, otherwise `</s>`; its cache holds
all tokens. -/
def hiScores : LanguageModel (List TokenId) where
  emptyCache := []
  forward ids before := (before ++ ids, .ok (.ofSingles
    (if before = [] then [5, 0, 0] else if before.head? = some 0 then [0, 5, 0] else [0, 0, 5])))

def hiSetup : EngineSetup (List TokenId) where
  config := { modelDirectory := some "words", extraEnds := ["END", "</s>"] }
  model := some hiScores

def hiEngine : Engine (List TokenId) where
  config := hiSetup.config
  model := hiScores
  lexicon := .ofSurfaces ["hi", "END", "</s>"] [1, 2]
  tokenizer := some hiTokenizer.tokenizer

def hiRequest (prompt : TokenId) : Request (List TokenId) :=
  { prompt := .tokens [prompt], params := { sampling := .greedy } }

theorem sortMembers_hi {α : Type} (x y : α) :
    Value.sortMembers [("END", x), ("hi", y)] = [("END", x), ("hi", y)] := by
  have hsorted : [("END", x), ("hi", y)].Pairwise fun a b => !decide (b.1 < a.1) := by
    rw [List.pairwise_pair]
    show (!decide ("hi" < "END")) = true
    decide
  rw [Value.sortMembers, List.mergeSort_of_pairwise hsorted]
  rfl

set_option maxRecDepth 4000 in
theorem parse_hi : Json.parse hiDocument = .ok (.object [("added_tokens", .array [hiMark]), ("model", hiModel)]) := by
  rfl

theorem words?_hi : WordTokenizer.words? hiModel = some (hiTokenizer.words, hiTokenizer.unknown) := by
  simp [WordTokenizer.words?, hiModel, hiVocabulary, hiTokenizer, WordTokenizer.members?, Value.member?,
    sortMembers_hi, WordTokenizer.textMember?, WordTokenizer.tokenId?, Value.text?, guard]

theorem ofValue?_hi :
    WordTokenizer.ofValue? (.object [("added_tokens", .array [hiMark]), ("model", hiModel)]) = some hiTokenizer := by
  have hmark : WordTokenizer.addedWord? hiMark = some ("</s>", true) := rfl
  simp [WordTokenizer.ofValue?, WordTokenizer.members?, WordTokenizer.fields, WordTokenizer.given?, Value.member?,
    Value.text?, words?_hi, hmark, guard]
  rfl

theorem load_hi : Tokenizer.load WordTokenizer.read? hiDirectory = .ok hiTokenizer.tokenizer := by
  simp [Tokenizer.load, hiDirectory, Directory.file?, Tokenizer.ofText, WordTokenizer.read?, parse_hi, ofValue?_hi,
    Except.toOption]

/-- The lexicon of the directory: two words and the mark, of which `END` and `</s>` end a text. -/
theorem reconcile_hi : hiFiles.reconcile ["END", "</s>"] = hiEngine.lexicon := by
  have hbase : baseEntries hiFiles.tokenizer.model.vocabulary = [(1, "END"), (0, "hi")] := by
    simp [hiFiles, baseEntries, hiVocabulary, sortMembers_hi, vocabularyIndex?]
  have hadded : addedEntries hiFiles.tokenizer = [(2, "</s>", true)] := rfl
  have hbound : ∀ n : Nat, n < 3 → n < vocabularyBound := fun n hn => Nat.lt_trans hn (by decide)
  simp only [ModelFiles.reconcile, reconcile, hbase, hadded]
  simp [hiFiles, hbound, sizeAbove, fillSlots, Vocabulary.ofArray, encodingOf, Lexicon.withSpecial, ascending, hiEngine,
    Lexicon.ofSurfaces, stopTokens]
  cbv
  exact ⟨rfl, trivial⟩

set_option maxRecDepth 4000 in
theorem build_hi : build WordTokenizer.read? (fun _ => hiDirectory) hiSetup = .ok hiEngine := by
  have hfiles : ModelFiles.load hiDirectory = .ok hiFiles := rfl
  simp [build, hiSetup, hfiles, load_hi, reconcile_hi, hiEngine]

/-- Ended by `END`, the text shows it: the token is not special. -/
theorem result_hi : ∃ c, hiEngine.execute .silent 3 () (hiRequest 0) = .ok c ∧
    c.result = some (.ok ⟨"hi END", [0, 1], 1, 2, .stopToken⟩) :=
  ⟨_, rfl, by decide +kernel⟩

/-- Ended by `</s>`, the text does not show it. -/
theorem result_hi_special : ∃ c, hiEngine.execute .silent 3 () (hiRequest 1) = .ok c ∧
    c.result = some (.ok ⟨"hi", [0, 2], 1, 2, .stopToken⟩) :=
  ⟨_, rfl, by decide +kernel⟩

theorem eq_of_two {first second last : TokenId} {front : List TokenId} (h : [first, second] = front ++ [last]) :
    [first] = front ∧ second = last := by
  have hsplit : [first] ++ [second] = front ++ [last] := h
  obtain ⟨hfront, hlast⟩ := List.append_inj' hsplit rfl
  exact ⟨hfront, List.singleton_inj.mp hlast⟩

/-- Behind the prompt `hi` comes `END`, which is not special and of which the text is made too; behind another prompt
comes `</s>`, which is special, and the text is that of `hi` alone. -/
theorem text_of_directory_hi :
    (∃ t, hiEngine.tokenizer = some t ∧ t.isSpecial 1 = false ∧ t.text? [0, 1] false = some "hi END") ∧
      ∃ t, hiEngine.tokenizer = some t ∧ t.isSpecial 2 = true ∧ t.text? [0] true = some "hi" := by
  constructor
  · obtain ⟨c, hrun, hresult⟩ := result_hi
    obtain ⟨t, front, last, ht, htokens, -, -, -, -, hshown⟩ := text_of_directory build_hi rfl hrun hresult rfl
    obtain rfl : hiTokenizer.tokenizer = t := Option.some.inj ht
    obtain ⟨rfl, rfl⟩ := eq_of_two htokens
    exact ⟨_, rfl, rfl, hshown rfl⟩
  · obtain ⟨c, hrun, hresult⟩ := result_hi_special
    obtain ⟨t, front, last, ht, htokens, -, -, -, hskipped, -⟩ := text_of_directory build_hi rfl hrun hresult rfl
    obtain rfl : hiTokenizer.tokenizer = t := Option.some.inj ht
    obtain ⟨rfl, rfl⟩ := eq_of_two htokens
    exact ⟨_, rfl, rfl, hskipped rfl⟩

/-- A stop token that is not special is in the text. -/
theorem text_has_stopToken :
    ∃ e c done t, build WordTokenizer.read? (fun _ => hiDirectory) hiSetup = .ok e ∧
      e.execute .silent 3 () (hiRequest 0) = .ok c ∧ c.result = some (.ok done) ∧ done.stopReason = .stopToken ∧
      e.tokenizer = some t ∧ done.tokens = [0, 1] ∧ done.text = "hi END" ∧ t.text? [0] true = some "hi" := by
  obtain ⟨c, hrun, hresult⟩ := result_hi
  exact ⟨_, c, _, _, build_hi, hrun, hresult, rfl, rfl, rfl, rfl, rfl⟩

end Engine

end GuidedDecoding
