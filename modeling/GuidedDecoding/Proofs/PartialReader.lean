import GuidedDecoding.Proofs.Json.Complete
import GuidedDecoding.Session.Run

/-!
# Values along a generation that has finished

The values along the chunks of a generation end with the value of the whole text, whatever is read of it
(`projectItems_of_value`). A word or numeral by itself is the exception: as nothing tells that it does not go on,
it has no value before something is behind it.

What is read along the chunks depends on the text so far alone (`PartialReader.valueOf?`).
-/

namespace GuidedDecoding

open Json (Reader Repair Token tokens)

/-! ### The typed readers of the library -/

/-- A field can be skipped if its value can. -/
theorem readsValue_plainField {α σ : Type} {name : String} {isSet : σ → Bool} {set : σ → α → σ} {read : Reader α}
    (h : read.ReadsValue) : ∀ state, ((plainField name isSet set read).read state).ReadsValue := by
  intro state
  show (Reader.refine read fun a => some (set state a)).ReadsValue
  exact h.refine _

theorem SamplingParams.readsValue_reader : SamplingParams.reader.ReadsValue := by
  apply Reader.readsValue_record
  simp only [Reader.FieldsReadValues, List.forall_mem_cons]
  exact ⟨readsValue_plainField Reader.readsValue_single, readsValue_plainField Reader.readsValue_single,
    readsValue_plainField Reader.readsValue_word64, readsValue_plainField Reader.readsValue_word64.optional,
    List.forall_mem_nil _⟩

theorem GenerationParams.readsValue_reader : GenerationParams.reader.ReadsValue := by
  apply Reader.readsValue_record
  simp only [Reader.FieldsReadValues, List.forall_mem_cons]
  exact ⟨readsValue_plainField SamplingParams.readsValue_reader, readsValue_plainField Reader.readsValue_word64,
    readsValue_plainField Reader.readsValue_word64.optional, List.forall_mem_nil _⟩

/-- The configuration of an engine can be skipped, with the records inside of it. -/
theorem EngineConfig.readsValue_reader : EngineConfig.reader.ReadsValue := by
  apply Reader.readsValue_record
  simp only [Reader.FieldsReadValues, List.forall_mem_cons]
  exact ⟨readsValue_plainField Reader.readsValue_text.optional,
    readsValue_plainField GenerationParams.readsValue_reader, readsValue_plainField Reader.readsValue_text.list,
    readsValue_plainField Reader.readsValue_bool, readsValue_plainField Reader.readsValue_word64,
    List.forall_mem_nil _⟩

theorem readsValue_tokenIdReader : tokenIdReader.ReadsValue := by
  unfold tokenIdReader
  exact (Reader.readsValue_natural _).refine _

theorem Completion.readsValue_reader : Completion.reader.ReadsValue := by
  apply Reader.readsValue_record
  simp only [Reader.FieldsReadValues, List.forall_mem_cons]
  exact ⟨readsValue_plainField Reader.readsValue_text, readsValue_plainField readsValue_tokenIdReader.list,
    readsValue_plainField Reader.readsValue_word64, readsValue_plainField Reader.readsValue_word64,
    readsValue_plainField (Reader.readsValue_choice _), List.forall_mem_nil _⟩

namespace PartialReader

/-! ### The value of the text so far -/

variable {α ε : Type} {reader : Reader α} {p : PartialReader} {chunk : String} {chunks : List String} {a : α}
  {cs : List Char}

/-- The value that a text has while it is being written. -/
def valueOf? (reader : Reader α) (cs : List Char) : Option α :=
  (Repair.scan cs).repaired.bind fun r => (Json.read reader r.text).toOption

def Scanned (p : PartialReader) : Prop := p.scan = Repair.scan p.text.toList

theorem Scanned.current? (h : p.Scanned) (reader : Reader α) :
    p.current? reader = valueOf? reader p.text.toList := by
  rw [PartialReader.current?, valueOf?, h]

/-- A push leaves the scanner behind the longer text. -/
theorem Scanned.push (h : p.Scanned) (reader : Reader α) (chunk : String) : (p.push reader chunk).1.Scanned := by
  unfold PartialReader.push
  split
  · exact h
  · show chunk.toList.foldl Repair.feed p.scan = Repair.scan (p.text ++ chunk).toList
    rw [h, Repair.scan, Repair.scan, String.toList_append, List.foldl_append]

theorem toList_push (reader : Reader α) (p : PartialReader) (chunk : String) :
    (p.push reader chunk).1.text.toList = p.text.toList ++ chunk.toList := by
  unfold PartialReader.push
  split
  · next hempty =>
    rw [String.isEmpty_iff.mp hempty]
    simp
  · exact String.toList_append

/-- A chunk that is not empty brings the value of the text behind it. -/
theorem Scanned.value_push (h : p.Scanned) (hchunk : chunk ≠ "") :
    (p.push reader chunk).2 = valueOf? reader (p.text.toList ++ chunk.toList) := by
  have hcurrent := (h.push reader chunk).current? reader
  rw [toList_push] at hcurrent
  rw [← hcurrent, PartialReader.push, if_neg (fun hempty => hchunk (String.isEmpty_iff.mp hempty))]

/-- An empty chunk changes nothing and brings no value. -/
theorem value_push_empty : p.push reader "" = (p, none) := rfl

/-- A chunk brings its value, and the others are taken in behind it. -/
theorem project_cons (rest : List (Except ε String)) :
    project reader p (.ok chunk :: rest) =
      (p.push reader chunk).2.toList.map .ok ++ project reader (p.push reader chunk).1 rest := by
  rw [project]
  split
  · next heq =>
    rw [heq]
    rfl
  · next heq =>
    rw [heq]
    rfl

/-! ### The values along some chunks -/

/-- A word or numeral by itself has no value in the meantime. -/
theorem project_of_isBare (h : p.Scanned)
    (hbare : Repair.isBare (p.text.toList ++ chunks.flatMap String.toList) = true) :
    project reader p (chunks.map Except.ok) = ([] : List (Except ε α)) := by
  induction chunks generalizing p with
  | nil => rfl
  | cons chunk chunks ih =>
    rw [List.flatMap_cons, ← List.append_assoc] at hbare
    have hnone : (p.push reader chunk).2 = none := by
      by_cases hchunk : chunk = ""
      · rw [hchunk, value_push_empty]
      · rw [h.value_push hchunk, valueOf?, Repair.repaired_of_isBare (Repair.isBare_of_append hbare)]
        rfl
    rw [List.map_cons, project_cons, hnone]
    apply ih (h.push reader chunk)
    rw [toList_push]
    exact hbare

/-- Empty chunks bring no value. -/
theorem project_of_flatMap_eq_nil (h : chunks.flatMap String.toList = []) :
    project reader p (chunks.map Except.ok) = ([] : List (Except ε α)) := by
  induction chunks generalizing p with
  | nil => rfl
  | cons chunk chunks ih =>
    obtain ⟨hchunk, hrest⟩ := List.append_eq_nil_iff.mp h
    obtain rfl : chunk = "" := String.toList_eq_nil_iff.mp hchunk
    rw [List.map_cons, project_cons, value_push_empty]
    exact ih hrest

/-- The last chunk that is not empty brings the value of the whole text. -/
theorem getLast?_project (h : p.Scanned) (hmore : chunks.flatMap String.toList ≠ [])
    (hlast : valueOf? reader (p.text.toList ++ chunks.flatMap String.toList) = some a) :
    (project reader p (chunks.map Except.ok)).getLast? = some (Except.ok a : Except ε α) := by
  induction chunks generalizing p with
  | nil => exact absurd rfl hmore
  | cons chunk chunks ih =>
    rw [List.map_cons, project_cons]
    rw [List.flatMap_cons, ← List.append_assoc] at hlast
    by_cases hrest : chunks.flatMap String.toList = []
    · have hchunk : chunk ≠ "" := by
        rintro rfl
        exact hmore (by rw [List.flatMap_cons, hrest]; rfl)
      rw [hrest, List.append_nil, ← h.value_push hchunk] at hlast
      rw [hlast, project_of_flatMap_eq_nil hrest]
      rfl
    · rw [← toList_push reader] at hlast
      rw [List.getLast?_append, ih (h.push reader chunk) hrest hlast]
      rfl

end PartialReader

/-! ### The values along the items of a generation -/

section Projection

open PartialReader (valueOf? getLast?_project project_of_isBare)

variable {α : Type} {reader : Reader α} {gs : List Generated} {c : Completion} {a : α}

theorem projectItems_ok (reader : Reader α) (gs : List Generated) :
    projectItems reader (gs.map .ok) = PartialReader.project reader {} ((gs.map (·.chunk)).map .ok) := by
  rw [projectItems, List.map_map, List.map_map]
  rfl

theorem read_eq_ok {text : String} (h : Json.read reader text = .ok a) :
    reader Json.nestingLimit (tokens text.toList) = .ok (a, []) := by
  unfold Json.read at h
  split at h
  · next heq =>
    cases h
    exact heq
  · cases h
  · cases h

/-- Reading sees nothing of a text but its tokens. -/
theorem read_congr {text text' : String} (h : tokens text.toList = tokens text'.toList) :
    Json.read reader text = Json.read reader text' := by
  unfold Json.read
  rw [h]

/-- A complete text has the value that it is read as, unless it is a word or numeral by itself. -/
theorem valueOf?_of_read {text : String} (hreader : reader.ReadsValue) (hread : Json.read reader text = .ok a)
    (hclean : Token.hugeNumber ∉ tokens text.toList) (hbare : Repair.isBare text.toList = false) :
    valueOf? reader text.toList = some a := by
  obtain ⟨v, hskims⟩ := hreader.skims (read_eq_ok hread)
  obtain ⟨kept, hrepaired, hkept⟩ := Json.repaired_of_skims hskims hclean hbare
  have hclosed : tokens (Json.Repaired.text ⟨kept, []⟩).toList = tokens text.toList := by
    rw [Json.Repaired.text, List.append_nil, String.toList_ofList, hkept]
  rw [valueOf?, hrepaired]
  show (Json.read reader (Json.Repaired.text ⟨kept, []⟩)).toOption = some a
  rw [read_congr hclosed, hread]
  rfl

/-- A text that can be read is not empty. -/
theorem ne_nil_of_read {text : String} (hreader : reader.ReadsValue) (hread : Json.read reader text = .ok a) :
    text.toList ≠ [] := by
  intro hnil
  obtain ⟨v, hskims⟩ := hreader.skims (read_eq_ok hread)
  rw [hnil] at hskims
  cases hskims

/-- Once a generation has finished whose chunks make up its text, and the text can be read, the last value along
the items is that of the text. Only of a word or numeral by itself there is no value at all. Numerals in the text
must be within the doubles, also where they are only skipped. -/
theorem projectItems_of_value (hreader : reader.ReadsValue)
    (htext : gs.flatMap (·.chunk.toList) = c.text.toList) (hvalue : c.value reader = .ok a)
    (hclean : Token.hugeNumber ∉ tokens c.text.toList) :
    (Repair.isBare c.text.toList = false → (projectItems reader (gs.map .ok)).getLast? = some (.ok a)) ∧
      (Repair.isBare c.text.toList = true → projectItems reader (gs.map .ok) = []) := by
  have hchunks : (gs.map (·.chunk)).flatMap String.toList = c.text.toList := by
    rw [List.flatMap_map]
    exact htext
  have hstart : PartialReader.Scanned {} := rfl
  rw [projectItems_ok]
  constructor
  · intro hbare
    apply getLast?_project hstart
    · rw [hchunks]
      exact ne_nil_of_read hreader hvalue
    · rw [hchunks]
      exact valueOf?_of_read hreader hvalue hclean hbare
  · intro hbare
    apply project_of_isBare hstart
    rw [hchunks]
    exact hbare

/-- A configuration in chunks that are cut inside a key, inside a word and inside a numeral. The first member is
skipped, and two chunks are empty. -/
def configItems : List Generated :=
  [⟨0, "\x7b\"dra", none⟩, ⟨1, "", none⟩, ⟨2, "ft\": [tr", none⟩, ⟨3, "ue], \"stream_buffer\": 4", none⟩,
    ⟨4, "2\x7d", none⟩, ⟨5, "", some .stopToken⟩]

def configText : Completion :=
  ⟨"\x7b\"draft\": [true], \"stream_buffer\": 42\x7d", [0, 1, 2, 3, 4, 5], 0, 6, .stopToken⟩

theorem projectItems_of_config :
    configItems.flatMap (·.chunk.toList) = configText.text.toList ∧
      configText.value EngineConfig.reader = .ok { streamCapacity := 42 } ∧
      (projectItems EngineConfig.reader (configItems.map .ok)).getLast? = some (.ok { streamCapacity := 42 }) := by
  have htext : configItems.flatMap (·.chunk.toList) = configText.text.toList := by decide
  have hvalue : configText.value EngineConfig.reader = .ok { streamCapacity := 42 } := by rfl
  have hclean : Token.hugeNumber ∉ tokens configText.text.toList := by
    have htokens : tokens configText.text.toList = [.openObject, .text "draft", .colon, .openArray, .word .true,
        .closeArray, .comma, .text "stream_buffer", .colon, .number (.integer 42), .closeObject] := by rfl
    simp [htokens]
  have hbare : Repair.isBare configText.text.toList = false := by decide
  exact ⟨htext, hvalue, (projectItems_of_value EngineConfig.readsValue_reader htext hvalue hclean).1 hbare⟩

/-- A generation whose text is the numeral `12`. -/
def twelveItems : List Generated := [⟨0, "12", some .length⟩]

def twelve : Completion := ⟨"12", [0], 0, 1, .length⟩

/-- A numeral by itself has a value, but there is none along the items, as more digits could follow. -/
theorem projectItems_of_twelve :
    twelveItems.flatMap (·.chunk.toList) = twelve.text.toList ∧
      twelve.value Reader.value = .ok (.number (.integer 12)) ∧
      projectItems Reader.value (twelveItems.map .ok) = [] := by
  refine ⟨?_, ?_, ?_⟩
  · decide
  · rfl
  · rfl

end Projection

end GuidedDecoding
