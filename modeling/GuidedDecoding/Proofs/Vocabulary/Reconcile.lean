import GuidedDecoding.Proofs.Vocabulary.Metadata
import Mathlib.Order.Bounds.Basic

/-!
# The slots of a reconciled vocabulary

`reconcile` writes the surfaces that metadata name into empty slots, those of the vocabulary first and those of the
added tokens behind them. What a slot holds in the end is the last that was written to it (`fillSlots_getElem?`), and
every write is to a slot that is there (`writeAll?_eq_some`), since the size is above every index (`isGreatest_size`).
`reconcile_slots` puts this together, in terms of what the metadata name: `Holds` says it for one slot.
-/

namespace GuidedDecoding

open Json (Value)

/-! ### The last entry for an index -/

variable {i : Nat} {s : String} {xs : List (Nat × String)}

theorem lastOf?_eq_none_iff_not_mem : lastOf? i xs = none ↔ ∀ s, (i, s) ∉ xs := by
  rw [lastOf?_eq_none_iff]
  constructor
  · intro h s hs
    exact h (i, s) hs rfl
  · rintro h ⟨j, s⟩ hs rfl
    exact h s hs

/-- The last entry that is made of a list belongs to the last element with an entry for the index. -/
theorem lastOf?_filterMap {α : Type} {f : α → Option (Nat × String)} {items : List α} :
    lastOf? i (items.filterMap f) = some s ↔
      ∃ front a rest, items = front ++ a :: rest ∧ f a = some (i, s) ∧ ∀ b ∈ rest, ∀ s', f b ≠ some (i, s') := by
  induction items with
  | nil => simp [lastOf?]
  | cons x items ih =>
    have hcons : lastOf? i ((x :: items).filterMap f) =
        (lastOf? i (items.filterMap f)).or (lastOf? i (f x).toList) := by
      rw [← lastOf?_append]
      cases hx : f x <;> simp [hx]
    have hnone : lastOf? i (items.filterMap f) = none ↔ ∀ b ∈ items, ∀ s', f b ≠ some (i, s') := by
      rw [lastOf?_eq_none_iff_not_mem]
      simp only [List.mem_filterMap, not_exists, not_and]
      exact ⟨fun h b hb s' => h s' b hb, fun h s' b hb => h b hb s'⟩
    rw [hcons]
    constructor
    · intro h
      cases hitems : lastOf? i (items.filterMap f) with
      | some t =>
        rw [hitems, Option.some_or] at h
        obtain ⟨front, a, rest, rfl, ha, hrest⟩ := ih.mp (hitems.trans h)
        exact ⟨x :: front, a, rest, rfl, ha, hrest⟩
      | none =>
        rw [hitems, Option.none_or] at h
        have hmem := mem_of_lastOf? h
        rw [Option.mem_toList] at hmem
        exact ⟨[], x, items, rfl, hmem, hnone.mp hitems⟩
    · rintro ⟨front, a, rest, heq, ha, hrest⟩
      rcases List.cons_eq_append_iff.mp heq with ⟨rfl, hcons'⟩ | ⟨front', rfl, hitems⟩
      · obtain ⟨rfl, rfl⟩ := List.cons.inj hcons'
        rw [hnone.mpr hrest, ha]
        simp [lastOf?]
      · rw [ih.mpr ⟨front', a, rest, hitems, ha, hrest⟩]
        rfl

theorem lastOf?_eq_some_iff :
    lastOf? i xs = some s ↔ ∃ front rest, xs = front ++ (i, s) :: rest ∧ ∀ s', (i, s') ∉ rest := by
  rw [← List.filterMap_some (l := xs), lastOf?_filterMap, List.filterMap_some]
  constructor
  · rintro ⟨front, a, rest, rfl, ha, hrest⟩
    cases ha
    exact ⟨front, rest, rfl, fun s' hs' => hrest (i, s') hs' s' rfl⟩
  · rintro ⟨front, rest, rfl, hrest⟩
    refine ⟨front, (i, s), rest, rfl, rfl, ?_⟩
    rintro b hb s' hb'
    cases hb'
    exact hrest s' hb

/-- Where of two entries for one index the lesser surface comes first, the last is the greatest. -/
theorem lastOf?_eq_some_iff_isGreatest (h : xs.Pairwise fun a b => a.1 = b.1 → a.2 < b.2) :
    lastOf? i xs = some s ↔ IsGreatest {s | (i, s) ∈ xs} s := by
  have hgreatest {t : String} (ht : lastOf? i xs = some t) : IsGreatest {s | (i, s) ∈ xs} t := by
    refine ⟨mem_of_lastOf? ht, fun u hu => ?_⟩
    obtain ⟨front, rest, rfl, hrest⟩ := lastOf?_eq_some_iff.mp ht
    rcases List.mem_append.mp hu with hfront | hback
    · exact ((List.pairwise_append.mp h).2.2 (i, u) hfront (i, t) List.mem_cons_self rfl).le
    · rcases List.mem_cons.mp hback with hsame | hmem
      · cases hsame
        exact le_rfl
      · exact absurd hmem (hrest u)
  refine ⟨hgreatest, fun hs => ?_⟩
  cases ht : lastOf? i xs with
  | none => exact absurd hs.1 (lastOf?_eq_none_iff_not_mem.mp ht s)
  | some t => rw [(hgreatest ht).unique hs]

/-! ### Writing -/

theorem fillSlots_concat (size : Nat) (entries : List (Nat × String)) (e : Nat × String) :
    fillSlots size (entries ++ [e]) = (fillSlots size entries).setIfInBounds e.1 e.2 := by
  rw [fillSlots, List.foldl_append]
  rfl

/-- Entries never add a slot. -/
theorem size_fillSlots (size : Nat) (entries : List (Nat × String)) : (fillSlots size entries).size = size := by
  induction entries using List.reverseRecOn with
  | nil => exact Array.size_replicate
  | append_singleton entries e ih => rw [fillSlots_concat, Array.size_setIfInBounds, ih]

/-- A slot holds what was written to it last. -/
theorem fillSlots_getElem? (size : Nat) (entries : List (Nat × String)) (i : Nat) :
    (fillSlots size entries)[i]? = if i < size then some ((lastOf? i entries).getD "") else none := by
  induction entries using List.reverseRecOn with
  | nil => exact Array.getElem?_replicate
  | append_singleton entries e ih =>
    rw [fillSlots_concat, Array.getElem?_setIfInBounds, size_fillSlots, ih, lastOf?_append, lastOf?_singleton]
    by_cases he : e.1 = i
    · rw [if_pos he, if_pos he, he]
      rfl
    · rw [if_neg he, if_neg he]
      rfl

/-- Writes surfaces one after the other, each to a slot that is there. -/
def writeAll? (size : Nat) (entries : List (Nat × String)) : Option (Array String) :=
  entries.foldlM (fun slots (i, s) => if h : i < slots.size then some (slots.set i s) else none)
    (Array.replicate size "")

/-- Surfaces that are in range can all be written. -/
theorem writeAll?_eq_some {size : Nat} {entries : List (Nat × String)} (h : ∀ e ∈ entries, e.1 < size) :
    writeAll? size entries = some (fillSlots size entries) := by
  induction entries using List.reverseRecOn with
  | nil => rfl
  | append_singleton entries e ih =>
    rw [List.forall_mem_append, List.forall_mem_singleton] at h
    have hslot : e.1 < (fillSlots size entries).size := by
      rw [size_fillSlots]
      exact h.2
    have hwritten := ih h.1
    unfold writeAll? at hwritten ⊢
    rw [List.foldlM_append, hwritten, fillSlots_concat]
    simp [hslot, Array.setIfInBounds]

/-! ### What is written -/

def baseSlots (vocabulary : Option Value) : List (Nat × String) :=
  (baseEntries vocabulary).filter (·.1 < vocabularyBound)

def addedSlots (tokenizer : TokenizerData) : List (Nat × String × Bool) :=
  (addedEntries tokenizer).filter (·.1 < vocabularyBound)

/-- The surfaces in the order in which they are written to slots. -/
def writes (tokenizer : TokenizerData) : List (Nat × String) :=
  baseSlots tokenizer.model.vocabulary ++ (addedSlots tokenizer).map fun (i, s, _) => (i, s)

def slotCount (config : Option ModelConfig) (tokenizer : TokenizerData) : Nat :=
  max (max (((config.bind ModelConfig.declaredSize?).map (min vocabularyBound)).getD 0)
    (sizeAbove ((writes tokenizer).map (·.1)))) 1

variable {ends : List String} {config : Option ModelConfig} {tokenizerConfig : Option TokenizerConfig}
  {tokenizer tokenizer' : TokenizerData}

/-- The surfaces of the lexicon are the slots as they have been written. -/
theorem surfaces_reconcile :
    (reconcile ends config tokenizerConfig tokenizer).vocabulary.surfaces =
      fillSlots (slotCount config tokenizer) (writes tokenizer) := by
  have hpos : 0 < (fillSlots (slotCount config tokenizer) (writes tokenizer)).size := by
    rw [size_fillSlots, slotCount]
    omega
  have hsurfaces : (Vocabulary.ofArray (fillSlots (slotCount config tokenizer) (writes tokenizer))).surfaces =
      fillSlots (slotCount config tokenizer) (writes tokenizer) := by
    rw [Vocabulary.ofArray, dif_pos hpos]
  rw [← hsurfaces]
  unfold slotCount writes
  rw [List.map_append, List.map_map]
  rfl

theorem size_reconcile : (reconcile ends config tokenizerConfig tokenizer).size = slotCount config tokenizer := by
  rw [Lexicon.size, Vocabulary.size, surfaces_reconcile, size_fillSlots]

/-- Nothing else of a tokenizer is used. -/
theorem reconcile_congr (hbase : baseSlots tokenizer'.model.vocabulary = baseSlots tokenizer.model.vocabulary)
    (hadded : addedSlots tokenizer' = addedSlots tokenizer) (hdecoder : tokenizer'.decoder = tokenizer.decoder) :
    reconcile ends config tokenizerConfig tokenizer' = reconcile ends config tokenizerConfig tokenizer := by
  unfold baseSlots at hbase
  unfold addedSlots at hadded
  unfold reconcile
  simp only [hbase, hadded, hdecoder]

/-! ### The size -/

theorem sizeAbove_concat (ids : List Nat) (i : Nat) : sizeAbove (ids ++ [i]) = max (sizeAbove ids) (i + 1) := by
  rw [sizeAbove, List.foldl_append]
  rfl

/-- The size is above every id. -/
theorem lt_sizeAbove {ids : List Nat} (h : i ∈ ids) : i < sizeAbove ids := by
  induction ids using List.reverseRecOn with
  | nil => cases h
  | append_singleton ids j ih =>
    rw [sizeAbove_concat]
    rcases List.mem_append.mp h with hids | hj
    · have := ih hids
      omega
    · rw [List.mem_singleton.mp hj]
      omega

/-- And it is the least one. -/
theorem sizeAbove_eq (ids : List Nat) : sizeAbove ids = 0 ∨ ∃ i ∈ ids, sizeAbove ids = i + 1 := by
  induction ids using List.reverseRecOn with
  | nil => exact Or.inl rfl
  | append_singleton ids j ih =>
    right
    rw [sizeAbove_concat]
    rcases le_total (sizeAbove ids) (j + 1) with hle | hle
    · exact ⟨j, List.mem_append_right ids (List.mem_singleton_self j), max_eq_right hle⟩
    · rcases ih with hzero | ⟨i, hi, heq⟩
      · omega
      · exact ⟨i, List.mem_append_left [j] hi, by rw [max_eq_left hle, heq]⟩

/-! ### What the metadata name -/

def Declares (config : Option ModelConfig) (size : Nat) : Prop :=
  ∃ c v, config = some c ∧ c.vocabularySize = some v ∧ Indexes v size

theorem declaredSize?_eq_some_iff {size : Nat} :
    config.bind ModelConfig.declaredSize? = some size ↔ Declares config size := by
  simp only [Option.bind_eq_some_iff, ModelConfig.declaredSize?, vocabularyIndex?_eq_some_iff, Declares]
  constructor
  · rintro ⟨c, hc, v, hv, hsize⟩
    exact ⟨c, v, hc, hv, hsize⟩
  · rintro ⟨c, v, hc, hv, hsize⟩
    exact ⟨c, hc, v, hv, hsize⟩

namespace TokenizerData

/-- An added token has this index and this surface. -/
def Adds (t : TokenizerData) (i : Nat) (s : String) : Prop := ∃ a ∈ t.addedTokens.getD [], a.Defines i s

/-- So does the last of the added tokens that have this index. -/
def LastAdds (t : TokenizerData) (i : Nat) (s : String) : Prop :=
  ∃ front a rest, t.addedTokens.getD [] = front ++ a :: rest ∧ a.Defines i s ∧ ∀ b ∈ rest, ∀ s', ¬ b.Defines i s'

/-- An added token or the vocabulary names a surface for this index. -/
def Names (t : TokenizerData) (i : Nat) (s : String) : Prop := t.Adds i s ∨ BaseNames t.model.vocabulary i s

/-- What belongs into a slot: the surface of the last added token; if there is none, the greatest of those that the
vocabulary names, of which a list has one at most; and if there is none either, nothing. -/
inductive Holds (t : TokenizerData) (i : Nat) : String → Prop
  | added {s : String} : t.LastAdds i s → Holds t i s
  | base {s : String} : (∀ s, ¬ t.Adds i s) → IsGreatest {s | BaseNames t.model.vocabulary i s} s → Holds t i s
  | empty : (∀ s, ¬ t.Names i s) → Holds t i ""

end TokenizerData

def slot? (a : AddedToken) : Option (Nat × String) :=
  Option.map (fun (i, s, _) => (i, s)) <| a.entry?.filter fun e => e.1 < vocabularyBound

theorem slot?_eq_some_iff {a : AddedToken} : slot? a = some (i, s) ↔ a.Defines i s ∧ i < 2 ^ 24 := by
  simp only [slot?, Option.map_eq_some_iff, Option.filter_eq_some_iff, Prod.exists, AddedToken.entry?_eq_some_iff,
    decide_eq_true_eq, Prod.mk.injEq]
  constructor
  · rintro ⟨_, _, special, ⟨⟨hdefines, -⟩, hlt⟩, rfl, rfl⟩
    exact ⟨hdefines, hlt⟩
  · rintro ⟨hdefines, hlt⟩
    exact ⟨i, s, _, ⟨⟨hdefines, rfl⟩, hlt⟩, rfl, rfl⟩

theorem mem_baseSlots {vocabulary : Option Value} :
    (i, s) ∈ baseSlots vocabulary ↔ BaseNames vocabulary i s ∧ i < 2 ^ 24 := by
  rw [baseSlots, List.mem_filter, mem_baseEntries, decide_eq_true_iff]
  rfl

theorem writes_eq :
    writes tokenizer = baseSlots tokenizer.model.vocabulary ++ (tokenizer.addedTokens.getD []).filterMap slot? := by
  unfold writes addedSlots addedEntries
  rw [List.filter_filterMap, List.map_filterMap]
  rfl

/-- What is written is what is named, and in range. -/
theorem mem_writes : (i, s) ∈ writes tokenizer ↔ tokenizer.Names i s ∧ i < 2 ^ 24 := by
  rw [writes_eq, List.mem_append, mem_baseSlots, List.mem_filterMap]
  simp only [slot?_eq_some_iff, TokenizerData.Names, TokenizerData.Adds]
  constructor
  · rintro (⟨hbase, hlt⟩ | ⟨a, ha, hdefines, hlt⟩)
    · exact ⟨Or.inr hbase, hlt⟩
    · exact ⟨Or.inl ⟨a, ha, hdefines⟩, hlt⟩
  · rintro ⟨⟨a, ha, hdefines⟩ | hbase, hlt⟩
    · exact Or.inr ⟨a, ha, hdefines, hlt⟩
    · exact Or.inl ⟨hbase, hlt⟩

theorem lastOf?_base {vocabulary : Option Value} (hi : i < 2 ^ 24) :
    lastOf? i (baseSlots vocabulary) = some s ↔ IsGreatest {s | BaseNames vocabulary i s} s := by
  have hordered : (baseSlots vocabulary).Pairwise fun a b => a.1 = b.1 → a.2 < b.2 :=
    (pairwise_baseEntries vocabulary).filter _
  rw [lastOf?_eq_some_iff_isGreatest hordered]
  simp only [mem_baseSlots, hi, and_true]

/-- The last of the added tokens with an index decides. -/
theorem lastOf?_added (hi : i < 2 ^ 24) :
    lastOf? i ((tokenizer.addedTokens.getD []).filterMap slot?) = some s ↔ tokenizer.LastAdds i s := by
  rw [lastOf?_filterMap]
  simp only [ne_eq, slot?_eq_some_iff, hi, and_true, TokenizerData.LastAdds]

/-- The last surface that is written to a slot is what belongs there. -/
theorem holds_iff (hi : i < 2 ^ 24) : tokenizer.Holds i s ↔ (lastOf? i (writes tokenizer)).getD "" = s := by
  have hadded : lastOf? i ((tokenizer.addedTokens.getD []).filterMap slot?) = none ↔ ∀ s, ¬ tokenizer.Adds i s := by
    rw [lastOf?_eq_none_iff_not_mem]
    simp only [List.mem_filterMap, slot?_eq_some_iff, hi, and_true]
    rfl
  have hbase : lastOf? i (baseSlots tokenizer.model.vocabulary) = none ↔
      ∀ s, ¬ BaseNames tokenizer.model.vocabulary i s := by
    rw [lastOf?_eq_none_iff_not_mem]
    simp only [mem_baseSlots, hi, and_true]
  rw [writes_eq, lastOf?_append]
  -- `Holds` asks for the same three cases as the two lists do: an added token, else the vocabulary, else
  -- nothing
  constructor
  · rintro (hlast | ⟨hnone, hgreatest⟩ | hnone)
    · rw [(lastOf?_added hi).mpr hlast]
      rfl
    · rw [hadded.mpr hnone, (lastOf?_base hi).mpr hgreatest]
      rfl
    · rw [hadded.mpr fun s hs => hnone s (Or.inl hs), hbase.mpr fun s hs => hnone s (Or.inr hs)]
      rfl
  · rintro rfl
    cases ha : lastOf? i ((tokenizer.addedTokens.getD []).filterMap slot?) with
    | some t => exact .added ((lastOf?_added hi).mp ha)
    | none =>
      cases hb : lastOf? i (baseSlots tokenizer.model.vocabulary) with
      | some t => exact .base (hadded.mp ha) ((lastOf?_base hi).mp hb)
      | none => exact .empty fun s hs => hs.elim (hadded.mp ha s) (hbase.mp hb s)

/-- The vocabulary is as large as declared and as the greatest index needs, and has one slot at least. -/
theorem isGreatest_size (config : Option ModelConfig) (tokenizer : TokenizerData) :
    IsGreatest
      {n | n = 1 ∨ (∃ d, Declares config d ∧ n = min d (2 ^ 24)) ∨
        ∃ i s, tokenizer.Names i s ∧ i < 2 ^ 24 ∧ n = i + 1}
      (slotCount config tokenizer) := by
  unfold slotCount
  -- first that the number of slots is one of these, then that none of these is greater
  constructor
  · have hdeclared : ((config.bind ModelConfig.declaredSize?).map (min vocabularyBound)).getD 0 = 0 ∨
        ∃ d, Declares config d ∧
          ((config.bind ModelConfig.declaredSize?).map (min vocabularyBound)).getD 0 = min d (2 ^ 24) := by
      cases hd : config.bind ModelConfig.declaredSize? with
      | none => exact Or.inl rfl
      | some d => exact Or.inr ⟨d, declaredSize?_eq_some_iff.mp hd, min_comm _ _⟩
    have hnamed : sizeAbove ((writes tokenizer).map (·.1)) = 0 ∨
        ∃ i s, tokenizer.Names i s ∧ i < 2 ^ 24 ∧ sizeAbove ((writes tokenizer).map (·.1)) = i + 1 := by
      refine (sizeAbove_eq _).imp_right ?_
      rintro ⟨i, hi, heq⟩
      obtain ⟨⟨_, s⟩, he, rfl⟩ := List.mem_map.mp hi
      exact ⟨_, s, (mem_writes.mp he).1, (mem_writes.mp he).2, heq⟩
    generalize ((config.bind ModelConfig.declaredSize?).map (min vocabularyBound)).getD 0 = declared,
      sizeAbove ((writes tokenizer).map (·.1)) = named at hdeclared hnamed ⊢
    have hmax : max (max declared named) 1 = 1 ∨ declared ≠ 0 ∧ max (max declared named) 1 = declared ∨
        named ≠ 0 ∧ max (max declared named) 1 = named := by omega
    rcases hmax with hone | ⟨hne, heq⟩ | ⟨hne, heq⟩
    · exact Or.inl hone
    · rw [heq]
      exact Or.inr (Or.inl (hdeclared.resolve_left hne))
    · rw [heq]
      exact Or.inr (Or.inr (hnamed.resolve_left hne))
  · rintro n (rfl | ⟨d, hd, rfl⟩ | ⟨i, s, hnames, hlt, rfl⟩)
    · exact le_max_right _ _
    · rw [declaredSize?_eq_some_iff.mpr hd, Option.map_some, Option.getD_some, min_comm]
      exact le_max_of_le_left (le_max_left _ _)
    · have hwritten := List.mem_map_of_mem (f := Prod.fst) (mem_writes.mpr ⟨hnames, hlt⟩)
      exact le_max_of_le_left (le_max_of_le_right (lt_sizeAbove hwritten))

/-- There are no more slots than the bound. -/
theorem slotCount_le (config : Option ModelConfig) (tokenizer : TokenizerData) :
    slotCount config tokenizer ≤ 2 ^ 24 := by
  rcases (isGreatest_size config tokenizer).1 with h | ⟨d, -, h⟩ | ⟨i, -, -, hi, h⟩
  · rw [h]
    norm_num
  · rw [h]
    exact min_le_right d _
  · rw [h]
    exact hi

/-! ### Entries without use -/

/-- The second tokenizer is the first without an entry that is malformed or out of range: an added token, a member of
an object whose key it holds once, a piece of a list, which leaves `null` if others follow it, or a vocabulary that is
neither an object nor a list. -/
inductive TokenizerData.Drops : TokenizerData → TokenizerData → Prop
  | added {t : TokenizerData} {front rest : List AddedToken} {a : AddedToken} :
      t.addedTokens = some (front ++ a :: rest) → (∀ i s, a.Defines i s → 2 ^ 24 ≤ i) →
      Drops t { t with addedTokens := some (front ++ rest) }
  | member {t : TokenizerData} {front rest : List (String × Value)} {key : String} {v : Value} :
      t.model.vocabulary = some (.object (front ++ (key, v) :: rest)) → (∀ m ∈ front ++ rest, m.1 ≠ key) →
      (∀ i, Indexes v i → 2 ^ 24 ≤ i) →
      Drops t { t with model := { t.model with vocabulary := some (.object (front ++ rest)) } }
  | piece {t : TokenizerData} {front rest : List Value} {v : Value} :
      t.model.vocabulary = some (.array (front ++ v :: rest)) → (∀ s, Spells v s → 2 ^ 24 ≤ front.length) →
      Drops t { t with model := { t.model with vocabulary := some (.array (front ++ .null :: rest)) } }
  | lastPiece {t : TokenizerData} {front : List Value} {v : Value} :
      t.model.vocabulary = some (.array (front ++ [v])) → (∀ s, Spells v s → 2 ^ 24 ≤ front.length) →
      Drops t { t with model := { t.model with vocabulary := some (.array front) } }
  | vocabulary {t : TokenizerData} {v : Value} :
      t.model.vocabulary = some v → (∀ members, v ≠ .object members) → (∀ pieces, v ≠ .array pieces) →
      Drops t { t with model := { t.model with vocabulary := none } }

theorem addedSlots_eq : addedSlots tokenizer =
    (tokenizer.addedTokens.getD []).filterMap fun a => a.entry?.filter fun e => e.1 < vocabularyBound := by
  unfold addedSlots addedEntries
  exact List.filter_filterMap

/-- An added token out of range leaves no trace. -/
theorem addedSlots_of_useless {front rest : List AddedToken} {a : AddedToken}
    (ht : tokenizer.addedTokens = some (front ++ a :: rest)) (ha : ∀ i s, a.Defines i s → 2 ^ 24 ≤ i) :
    addedSlots { tokenizer with addedTokens := some (front ++ rest) } = addedSlots tokenizer := by
  have hnone : a.entry?.filter (fun e => e.1 < vocabularyBound) = none := by
    rw [Option.filter_eq_none_iff]
    rintro ⟨i, s, special⟩ he hlt
    have hle := ha i s (AddedToken.entry?_eq_some_iff.mp he).1
    exact absurd (of_decide_eq_true hlt) (not_lt.mpr hle)
  rw [addedSlots_eq, addedSlots_eq, ht]
  simp only [Option.getD_some, List.filterMap_append, List.filterMap_cons, hnone]

def pieceSlots (start : Nat) (pieces : List Value) : List (Nat × String) :=
  (pieces.zipIdx start).filterMap fun (piece, i) =>
    ((pieceSurface? piece).map (i, ·)).filter fun e => e.1 < vocabularyBound

theorem baseSlots_array (pieces : List Value) : baseSlots (some (.array pieces)) = pieceSlots 0 pieces := by
  unfold baseSlots baseEntries
  exact List.filter_filterMap

theorem pieceSlots_append (start : Nat) (front rest : List Value) :
    pieceSlots start (front ++ rest) = pieceSlots start front ++ pieceSlots (start + front.length) rest := by
  rw [pieceSlots, List.zipIdx_append, List.filterMap_append]
  rfl

theorem pieceSlots_cons_of_useless {start : Nat} {v : Value} (hv : ∀ s, Spells v s → 2 ^ 24 ≤ start)
    (rest : List Value) : pieceSlots start (v :: rest) = pieceSlots (start + 1) rest := by
  have hnone : ((pieceSurface? v).map (start, ·)).filter (fun e => e.1 < vocabularyBound) = none := by
    rw [Option.filter_eq_none_iff]
    rintro e he hlt
    obtain ⟨s, hs, rfl⟩ := Option.map_eq_some_iff.mp he
    have hle := hv s (pieceSurface?_eq_some_iff.mp hs)
    exact absurd (of_decide_eq_true hlt) (not_lt.mpr hle)
  rw [pieceSlots, List.zipIdx_cons, List.filterMap_cons]
  simp only [hnone]
  rfl

theorem baseSlots_object (members : List (String × Value)) :
    baseSlots (some (.object members)) = (Value.sortMembers members).filterMap fun (s, v) =>
      ((vocabularyIndex? v).map (·, s)).filter fun e => e.1 < vocabularyBound := by
  unfold baseSlots baseEntries
  exact List.filter_filterMap

/-- Only the member itself is missing where one is left out whose key is there once. -/
theorem baseSlots_of_useless {front rest : List (String × Value)} {key : String} {v : Value}
    (hkey : ∀ m ∈ front ++ rest, m.1 ≠ key) (hv : ∀ i, Indexes v i → 2 ^ 24 ≤ i) :
    baseSlots (some (.object (front ++ rest))) = baseSlots (some (.object (front ++ (key, v) :: rest))) := by
  have hfound : Value.member? key (front ++ (key, v) :: rest) = some v := by
    have hrest : lastOf? key rest = none :=
      lastOf?_eq_none_iff.mpr fun m hm => hkey m (List.mem_append_right front hm)
    rw [Value.member?_eq, lastOf?_append, lastOf?_cons, hrest, if_pos rfl]
    rfl
  have hothers (k : String) : Value.member? k (front ++ rest) =
      if k != key then Value.member? k (front ++ (key, v) :: rest) else none := by
    rw [Value.member?_eq, Value.member?_eq]
    by_cases hk : k = key
    · rw [hk, lastOf?_eq_none_iff.mpr hkey, bne_self_eq_false]
      rfl
    · rw [if_pos (bne_iff_ne.mpr hk), lastOf?_append, lastOf?_append, lastOf?_cons, if_neg (Ne.symm hk), Option.or_none]
  rw [baseSlots_object, baseSlots_object, Value.sortMembers_eq_filter hothers, List.filterMap_filter]
  refine List.filterMap_congr ?_
  rintro ⟨s, w⟩ hmem
  by_cases hs : s = key
  · -- This is the member that is left out, and it makes no entry.
    subst hs
    rw [Value.mem_sortMembers_iff, hfound, Option.some.injEq] at hmem
    subst hmem
    symm
    simp only [bne_self_eq_false, Bool.false_eq_true, if_false, Option.filter_eq_none_iff, decide_eq_true_eq]
    intro e he hlt
    obtain ⟨i, hi, rfl⟩ := Option.map_eq_some_iff.mp he
    exact absurd hlt (not_lt.mpr (hv i (vocabularyIndex?_eq_some_iff.mp hi)))
  · simp [hs]

/-- Entries that are malformed or out of range make no difference to the lexicon. -/
theorem reconcile_of_drops (h : tokenizer.Drops tokenizer') :
    reconcile ends config tokenizerConfig tokenizer' = reconcile ends config tokenizerConfig tokenizer := by
  -- each kind of entry that is dropped touches one of the two lists only
  cases h with
  | added ht ha => exact reconcile_congr rfl (addedSlots_of_useless ht ha) rfl
  | member ht hkey hv =>
    refine reconcile_congr ?_ rfl rfl
    rw [ht]
    exact baseSlots_of_useless hkey hv
  | piece ht hv =>
    have hnull (n : Nat) : ∀ s, Spells .null s → 2 ^ 24 ≤ n := by
      rintro s ⟨⟩
    refine reconcile_congr ?_ rfl rfl
    rw [ht, baseSlots_array, baseSlots_array, pieceSlots_append, pieceSlots_append, Nat.zero_add,
      pieceSlots_cons_of_useless hv, pieceSlots_cons_of_useless (hnull _)]
  | lastPiece ht hv =>
    refine reconcile_congr ?_ rfl rfl
    rw [ht, baseSlots_array, baseSlots_array, pieceSlots_append, Nat.zero_add, pieceSlots_cons_of_useless hv]
    exact (List.append_nil _).symm
  | @vocabulary v ht hobject harray =>
    refine reconcile_congr ?_ rfl rfl
    rw [ht]
    cases hv : v with
    | object members => exact absurd hv (hobject members)
    | array pieces => exact absurd hv (harray pieces)
    | _ => rfl

/-- The vocabulary has as many slots as the configuration declares and the greatest index needs, and one at least;
each of them holds what belongs there. Every surface is written to a slot that is there, and entries that are
malformed or out of range change nothing. -/
theorem reconcile_slots (ends : List String) (config : Option ModelConfig) (tokenizerConfig : Option TokenizerConfig)
    (tokenizer : TokenizerData) :
    let l := reconcile ends config tokenizerConfig tokenizer
    IsGreatest
        {n | n = 1 ∨ (∃ d, Declares config d ∧ n = min d (2 ^ 24)) ∨
          ∃ i s, tokenizer.Names i s ∧ i < 2 ^ 24 ∧ n = i + 1}
        l.size ∧
      (∀ i s, l.vocabulary.surfaces[i]? = some s ↔ i < l.size ∧ tokenizer.Holds i s) ∧
      writeAll? l.size (writes tokenizer) = some l.vocabulary.surfaces ∧
      ∀ tokenizer', tokenizer.Drops tokenizer' → reconcile ends config tokenizerConfig tokenizer' = l := by
  intro l
  have hsize : l.size = slotCount config tokenizer := size_reconcile
  have hsurfaces : l.vocabulary.surfaces = fillSlots (slotCount config tokenizer) (writes tokenizer) :=
    surfaces_reconcile
  rw [hsize, hsurfaces]
  -- the parts of the statement, each by its own lemma
  refine ⟨isGreatest_size config tokenizer, fun i s => ?_, writeAll?_eq_some ?_, fun _ => reconcile_of_drops⟩
  · rw [fillSlots_getElem?]
    by_cases hi : i < slotCount config tokenizer
    · rw [if_pos hi, Option.some.injEq, holds_iff (hi.trans_le (slotCount_le config tokenizer)), and_iff_right hi]
    · rw [if_neg hi]
      exact iff_of_false nofun fun h => hi h.1
  · rintro ⟨i, s⟩ he
    obtain ⟨hnames, hlt⟩ := mem_writes.mp he
    exact (isGreatest_size config tokenizer).2 (Or.inr (Or.inr ⟨i, s, hnames, hlt, rfl⟩))

def crowded : TokenizerData where
  model := { vocabulary := some (.object [("c", naturalNumber 1), ("b", naturalNumber 1), ("a", naturalNumber 0)]) }
  addedTokens := some [.of 4 "x", .of (2 ^ 40) "far", .of 4 "y"]

def crowdedInRange : TokenizerData := { crowded with addedTokens := some [.of 4 "x", .of 4 "y"] }

theorem indexes_naturalNumber {n : Nat} : Indexes (naturalNumber n) i ↔ n = i := by
  constructor
  · intro h
    cases h
    rfl
  · rintro rfl
    exact .integer n

theorem defines_of {n : Nat} {t : String} : (AddedToken.of n t).Defines i s ↔ n = i ∧ t = s := by
  simp [AddedToken.Defines, AddedToken.of, indexes_naturalNumber]

theorem baseNames_crowded : BaseNames crowded.model.vocabulary 1 "c" :=
  .key (v := naturalNumber 1) (by cbv) (.integer 1)

/-- The second of the keys and the second of the added tokens are there, and nothing between them. -/
theorem reconcile_slots_crowded :
    crowded.Drops crowdedInRange ∧
      reconcile [] none none crowdedInRange = reconcile [] none none crowded ∧
      (reconcile [] none none crowded).vocabulary.surfaces[1]? = some "c" ∧
      (reconcile [] none none crowded).vocabulary.surfaces[2]? = some "" ∧
      (reconcile [] none none crowded).vocabulary.surfaces[4]? = some "y" := by
  have hdrops : crowded.Drops crowdedInRange := by
    have hlist : crowded.addedTokens = some ([.of 4 "x"] ++ .of (2 ^ 40) "far" :: [.of 4 "y"]) := rfl
    refine .added hlist ?_
    intro i s h
    rw [← (defines_of.mp h).1]
    norm_num
  obtain ⟨hsize, hslots, -, hsame⟩ := reconcile_slots [] none none crowded
  have hadds {i : Nat} {s : String} (h : crowded.Adds i s) : i = 4 ∨ i = 2 ^ 40 := by
    obtain ⟨a, ha, hdefines⟩ := h
    simp only [crowded, Option.getD_some, List.mem_cons, List.not_mem_nil, or_false] at ha
    rcases ha with rfl | rfl | rfl
    · exact Or.inl (defines_of.mp hdefines).1.symm
    · exact Or.inr (defines_of.mp hdefines).1.symm
    · exact Or.inl (defines_of.mp hdefines).1.symm
  have hbase {i : Nat} {s : String} (h : BaseNames crowded.model.vocabulary i s) : i = 0 ∨ i = 1 ∧ s ≤ "c" := by
    generalize hvocabulary : crowded.model.vocabulary = vocabulary at h
    cases h with
    | piece => cases hvocabulary
    | key hv hi =>
      cases hvocabulary
      rw [Value.member?_eq] at hv
      have hmem := mem_of_lastOf? hv
      simp only [List.mem_cons, Prod.mk.injEq, List.not_mem_nil, or_false] at hmem
      rcases hmem with ⟨rfl, rfl⟩ | ⟨rfl, rfl⟩ | ⟨rfl, rfl⟩
      · exact Or.inr ⟨(indexes_naturalNumber.mp hi).symm, le_rfl⟩
      · exact Or.inr ⟨(indexes_naturalNumber.mp hi).symm, by decide⟩
      · exact Or.inl (indexes_naturalNumber.mp hi).symm
  have hlast : crowded.LastAdds 4 "y" :=
    ⟨[.of 4 "x", .of (2 ^ 40) "far"], .of 4 "y", [], rfl, defines_of.mpr ⟨rfl, rfl⟩, by simp⟩
  have hlarge : 4 + 1 ≤ (reconcile [] none none crowded).size :=
    hsize.2 (Or.inr (Or.inr ⟨4, "y", Or.inl ⟨_, by simp [crowded], defines_of.mpr ⟨rfl, rfl⟩⟩, by norm_num, rfl⟩))
  refine ⟨hdrops, hsame _ hdrops, (hslots 1 "c").mpr ⟨by omega, .base ?_ ⟨baseNames_crowded, ?_⟩⟩,
    (hslots 2 "").mpr ⟨by omega, .empty ?_⟩, (hslots 4 "y").mpr ⟨by omega, .added hlast⟩⟩
  · intro s h
    rcases hadds h with h | h <;> cases h
  · intro s h
    rcases hbase h with h | ⟨-, hle⟩
    · cases h
    · exact hle
  · rintro s (h | h)
    · rcases hadds h with h | h <;> cases h
    · rcases hbase h with h | ⟨h, -⟩ <;> cases h

end GuidedDecoding
