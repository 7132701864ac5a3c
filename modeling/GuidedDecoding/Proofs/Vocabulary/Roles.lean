import GuidedDecoding.Proofs.Matcher.Checked
import GuidedDecoding.Proofs.Vocabulary.Reconcile

/-!
# The roles of tokens in a reconciled vocabulary

`reconcile` finds out which tokens end a generation and which are special. The stop tokens are looked up by their
surfaces in the vocabulary that all metadata make together, and the special tokens are the added tokens with a mark,
without those that are stop tokens (`special_reconcile`). `reconcile_roles` says what is always true of the two, and
that a matcher without a grammar therefore starts on every reconciled lexicon.

A mark stays where an added token without one takes the slot from one that has it. `isSpecial_reconcile` says that
this is the only case in which a token is special whose surface comes from an added token without a mark; the token
then has no bytes, whatever its surface.
-/

namespace GuidedDecoding

open Json (Value)

/-! ### Sets of tokens -/

namespace StopSet

theorem ids_insert (s : StopSet) (id : TokenId) :
    (s.insert id).ids = if id ∈ s.ids then s.ids else s.ids ++ [id] := by
  unfold insert
  split <;> rfl

/-- The ids are kept in the order of their first mention. -/
theorem ids_ofList (ids : List TokenId) : (ofList ids).ids = ids.eraseDups := by
  induction ids using List.reverseRecOn with
  | nil => rfl
  | append_singleton ids id ih =>
    have hlast : ofList (ids ++ [id]) = (ofList ids).insert id := by
      rw [ofList, List.foldl_append]
      rfl
    rw [hlast, ids_insert, ih, List.eraseDups_append]
    by_cases hid : id ∈ ids
    · simp [hid, List.removeAll]
    · simp [hid, List.removeAll, List.eraseDups_cons]

end StopSet

theorem pairwise_insertAscending {id : TokenId} {ids : List TokenId} (h : ids.Pairwise (· < ·)) :
    (insertAscending id ids).Pairwise (· < ·) := by
  fun_induction insertAscending id ids with
  | case1 => simp
  | case2 a rest hlt =>
    refine List.pairwise_cons.mpr ⟨?_, h⟩
    intro b hb
    rcases List.mem_cons.mp hb with rfl | hrest
    · exact hlt
    · exact UInt32.lt_trans hlt (List.rel_of_pairwise_cons h hrest)
  | case3 => exact h
  | case4 a rest hnot hne ih =>
    obtain ⟨ha, hrest⟩ := List.pairwise_cons.mp h
    refine List.pairwise_cons.mpr ⟨?_, ih hrest⟩
    intro b hb
    rcases mem_insertAscending.mp hb with rfl | hmem
    · exact (UInt32.lt_or_lt_of_ne hne).resolve_left hnot
    · exact ha b hmem

/-- The special ids are in ascending order. -/
theorem pairwise_ascending (ids : List TokenId) : (ascending ids).Pairwise (· < ·) := by
  induction ids with
  | nil => exact List.Pairwise.nil
  | cons id ids ih => exact pairwise_insertAscending ih

/-! ### Stop tokens -/

namespace Vocabulary

/-- The surface is not empty, and this is the first id that has it. -/
def FirstAt (v : Vocabulary) (s : String) (id : TokenId) : Prop :=
  s ≠ "" ∧ v.surface? id = some s ∧ ∀ earlier < id, v.surface? earlier ≠ some s

/-- Ids do not wrap around in a vocabulary that is not too large, so the slot that is found is the token. -/
theorem find?_eq_some_iff {v : Vocabulary} {s : String} {id : TokenId} (hv : v.size ≤ 2 ^ 24) :
    v.find? s = some id ↔ v.FirstAt s id := by
  have hslot {i : Nat} (hi : i < v.size) : i.toUInt32.toNat = i := Nat.mod_eq_of_lt (by omega)
  unfold find? FirstAt
  by_cases hs : s = ""
  · simp [hs]
  rw [if_neg (by simpa using hs), and_iff_right hs, Option.map_eq_some_iff]
  -- the search goes by places, which are the ids: there are no more of them than `2 ^ 24`
  constructor
  · rintro ⟨i, hi, rfl⟩
    obtain ⟨hlt, hfound, hbefore⟩ := Array.findIdx?_eq_some_iff_getElem.mp hi
    unfold surface?
    rw [hslot hlt]
    refine ⟨?_, ?_⟩
    · rw [Array.getElem?_eq_getElem hlt, beq_iff_eq.mp hfound]
    · intro earlier hearlier hsame
      rw [UInt32.lt_iff_toNat_lt, hslot hlt] at hearlier
      obtain ⟨_, heq⟩ := Array.getElem?_eq_some_iff.mp hsame
      exact hbefore earlier.toNat hearlier (beq_iff_eq.mpr heq)
  · rintro ⟨hsurface, hbefore⟩
    obtain ⟨hlt, heq⟩ := Array.getElem?_eq_some_iff.mp hsurface
    refine ⟨id.toNat, ?_, UInt32.ofNat_toNat⟩
    refine Array.findIdx?_eq_some_iff_getElem.mpr ⟨hlt, beq_iff_eq.mpr heq, ?_⟩
    intro j hj hsame
    have hjlt : j < v.size := hj.trans hlt
    refine hbefore j.toUInt32 ?_ ?_
    · rw [UInt32.lt_iff_toNat_lt, hslot hjlt]
      exact hj
    · unfold surface?
      rw [hslot hjlt, Array.getElem?_eq_getElem hjlt]
      exact congrArg some (beq_iff_eq.mp hsame)

end Vocabulary

/-- The configuration names this surface as the end of a sequence, as a text or as the content of an object. -/
inductive NamesEnd : Option TokenizerConfig → String → Prop
  | text (s : String) : NamesEnd (some { endToken := some (.text s) }) s
  | object {members : List (String × Value)} {s : String} :
      Value.member? "content" members = some (.text s) → NamesEnd (some { endToken := some (.object members) }) s

theorem endSurface?_eq_some_iff {c : Option TokenizerConfig} {s : String} :
    c.bind TokenizerConfig.endSurface? = some s ↔ NamesEnd c s := by
  constructor
  · rw [Option.bind_eq_some_iff]
    rintro ⟨⟨token⟩, rfl, h⟩
    unfold TokenizerConfig.endSurface? at h
    split at h
    · next htoken =>
      cases htoken
      cases h
      exact .text s
    · next htoken =>
      cases htoken
      obtain ⟨v, hv, htext⟩ := Option.bind_eq_some_iff.mp h
      rw [text?_eq_some_iff.mp htext] at hv
      exact .object hv
    · cases h
  · rintro (_ | hmember)
    · rfl
    · simp [TokenizerConfig.endSurface?, hmember, Value.text?]

/-! ### The lexicon -/

variable {i : Nat} {s : String} {id : TokenId} {ends : List String} {config : Option ModelConfig}
  {tokenizerConfig : Option TokenizerConfig} {tokenizer : TokenizerData}

theorem size_reconcile_le : (reconcile ends config tokenizerConfig tokenizer).size ≤ 2 ^ 24 := by
  rw [size_reconcile]
  exact slotCount_le config tokenizer

theorem stop_reconcile :
    (reconcile ends config tokenizerConfig tokenizer).stop.ids =
      ((ends ++ (tokenizerConfig.bind TokenizerConfig.endSurface?).toList).filterMap
        (reconcile ends config tokenizerConfig tokenizer).vocabulary.find?).eraseDups :=
  StopSet.ids_ofList _

/-- A stop token has a surface that was looked up. -/
theorem exists_of_mem_stop (h : id ∈ (reconcile ends config tokenizerConfig tokenizer).stop) :
    ∃ s ∈ ends ++ (tokenizerConfig.bind TokenizerConfig.endSurface?).toList,
      (reconcile ends config tokenizerConfig tokenizer).vocabulary.FirstAt s id := by
  replace h : id ∈ (reconcile ends config tokenizerConfig tokenizer).stop.ids := h
  rw [stop_reconcile, List.mem_eraseDups, List.mem_filterMap] at h
  obtain ⟨s, hs, hfound⟩ := h
  exact ⟨s, hs, (Vocabulary.find?_eq_some_iff size_reconcile_le).mp hfound⟩

theorem Vocabulary.FirstAt.lt_size {v : Vocabulary} (h : v.FirstAt s id) : id.toNat < v.size :=
  (Array.getElem?_eq_some_iff.mp h.2.1).1

namespace TokenizerData

/-- An added token that has this index and a surface is marked as special. -/
def Marks (t : TokenizerData) (i : Nat) : Prop :=
  ∃ a ∈ t.addedTokens.getD [], (∃ s, a.Defines i s) ∧ a.special = some true

/-- Of the added tokens that have this index and a surface, this is the last. -/
def Supplies (t : TokenizerData) (i : Nat) (a : AddedToken) : Prop :=
  ∃ front rest, t.addedTokens.getD [] = front ++ a :: rest ∧ (∃ s, a.Defines i s) ∧
    ∀ b ∈ rest, ∀ s, ¬ b.Defines i s

def LastMarks (t : TokenizerData) (i : Nat) : Prop := ∃ a, t.Supplies i a ∧ a.special = some true

def Unmarks (t : TokenizerData) (i : Nat) : Prop := t.Marks i ∧ ∃ a, t.Supplies i a ∧ a.special ≠ some true

variable {t : TokenizerData} {a b : AddedToken}

theorem Supplies.mem (h : t.Supplies i a) : a ∈ t.addedTokens.getD [] := by
  obtain ⟨front, rest, hlist, -⟩ := h
  simp [hlist]

theorem Supplies.unique (ha : t.Supplies i a) (hb : t.Supplies i b) : a = b := by
  obtain ⟨front, rest, hlist, ⟨s, hs⟩, hrest⟩ := ha
  obtain ⟨front', rest', hlist', ⟨s', hs'⟩, hrest'⟩ := hb
  rcases List.append_eq_append_iff.mp (hlist.symm.trans hlist') with ⟨between, -, h⟩ | ⟨between, -, h⟩
  · cases between with
    | nil => exact (List.cons.inj h).1
    | cons c between =>
      have hmem : b ∈ rest := by simp [(List.cons.inj h).2]
      exact absurd hs' (hrest b hmem s')
  · cases between with
    | nil => exact (List.cons.inj h).1.symm
    | cons c between =>
      have hmem : a ∈ rest' := by simp [(List.cons.inj h).2]
      exact absurd hs (hrest' a hmem s)

theorem Supplies.lastAdds (h : t.Supplies i a) (hs : a.Defines i s) : t.LastAdds i s := by
  obtain ⟨front, rest, hlist, -, hrest⟩ := h
  exact ⟨front, a, rest, hlist, hs, hrest⟩

theorem Adds.exists_supplies (h : t.Adds i s) : ∃ a, t.Supplies i a := by
  replace h : ∃ a ∈ t.addedTokens.getD [], ∃ s, a.Defines i s := by
    obtain ⟨a, ha, hs⟩ := h
    exact ⟨a, ha, s, hs⟩
  unfold Supplies
  generalize t.addedTokens.getD [] = items at h ⊢
  induction items with
  | nil => simp at h
  | cons b items ih =>
    by_cases hlater : ∃ a ∈ items, ∃ s, a.Defines i s
    · obtain ⟨a, front, rest, rfl, ha⟩ := ih hlater
      exact ⟨a, b :: front, rest, rfl, ha⟩
    · obtain ⟨a, ha, hs⟩ := h
      rcases List.mem_cons.mp ha with rfl | hmem
      · exact ⟨a, [], items, rfl, hs, fun c hc s hcs => hlater ⟨c, hc, s, hcs⟩⟩
      · exact absurd ⟨a, hmem, hs⟩ hlater

theorem LastMarks.marks (h : t.LastMarks i) : t.Marks i := by
  obtain ⟨a, ha, hmark⟩ := h
  obtain ⟨-, -, -, hs, -⟩ := id ha
  exact ⟨a, ha.mem, hs, hmark⟩

theorem LastMarks.not_unmarks (h : t.LastMarks i) : ¬ t.Unmarks i := by
  obtain ⟨a, ha, hmark⟩ := h
  rintro ⟨-, b, hb, hnot⟩
  exact hnot (hb.unique ha ▸ hmark)

theorem marks_iff : t.Marks i ↔ t.LastMarks i ∨ t.Unmarks i := by
  constructor
  · intro h
    obtain ⟨a, ha, ⟨s, hs⟩, -⟩ := id h
    obtain ⟨b, hb⟩ := Adds.exists_supplies ⟨a, ha, hs⟩
    by_cases hmark : b.special = some true
    · exact Or.inl ⟨b, hb, hmark⟩
    · exact Or.inr ⟨h, b, hb, hmark⟩
  · rintro (h | h)
    · exact h.marks
    · exact h.1

end TokenizerData

/-- What is written to a slot last is there. -/
theorem surface?_reconcile (hs : tokenizer.LastAdds id.toNat s)
    (hid : id.toNat < (reconcile ends config tokenizerConfig tokenizer).size) :
    (reconcile ends config tokenizerConfig tokenizer).vocabulary.surface? id = some s := by
  have hbound : id.toNat < 2 ^ 24 := hid.trans_le size_reconcile_le
  rw [size_reconcile] at hid
  unfold Vocabulary.surface?
  rw [surfaces_reconcile, fillSlots_getElem?, if_pos hid, (holds_iff hbound).mp (.added hs)]

theorem mem_addedSlots {special : Bool} :
    (i, s, special) ∈ addedSlots tokenizer ↔
      (∃ a ∈ tokenizer.addedTokens.getD [], a.Defines i s ∧ special = a.special.getD false) ∧ i < 2 ^ 24 := by
  rw [addedSlots, List.mem_filter, decide_eq_true_iff, addedEntries, List.mem_filterMap]
  simp only [AddedToken.entry?_eq_some_iff]
  rfl

/-- The special tokens are the added tokens with a mark, without the stop tokens. -/
theorem special_reconcile :
    id ∈ (reconcile ends config tokenizerConfig tokenizer).special ↔
      id.toNat < (reconcile ends config tokenizerConfig tokenizer).size ∧
        id ∉ (reconcile ends config tokenizerConfig tokenizer).stop ∧ tokenizer.Marks id.toNat := by
  have hspecial : (reconcile ends config tokenizerConfig tokenizer).special =
      ascending ((((addedSlots tokenizer).filter (·.2.2)).map (·.1.toUInt32)).filter
        (· ∉ (reconcile ends config tokenizerConfig tokenizer).stop)) := rfl
  rw [hspecial, mem_ascending, List.mem_filter, decide_eq_true_iff, List.mem_map]
  constructor
  · rintro ⟨⟨⟨i, s, special⟩, hmem, rfl⟩, hstop⟩
    rw [List.mem_filter, mem_addedSlots] at hmem
    obtain ⟨⟨⟨a, ha, hs, rfl⟩, hlt⟩, hmark⟩ := hmem
    have hid : i.toUInt32.toNat = i := Nat.mod_eq_of_lt (by omega)
    rw [hid, size_reconcile]
    refine ⟨?_, hstop, a, ha, ⟨s, hs⟩, by simpa [Option.getD_eq_iff] using hmark⟩
    exact (isGreatest_size config tokenizer).2 (Or.inr (Or.inr ⟨i, s, Or.inl ⟨a, ha, hs⟩, hlt, rfl⟩))
  · rintro ⟨hid, hstop, a, ha, ⟨s, hs⟩, hmark⟩
    refine ⟨⟨(id.toNat, s, true), ?_, UInt32.ofNat_toNat⟩, hstop⟩
    rw [List.mem_filter, mem_addedSlots]
    exact ⟨⟨⟨a, ha, hs, by rw [hmark]; rfl⟩, hid.trans_le size_reconcile_le⟩, rfl⟩

theorem exists_start_reconcile {c : Constraint} :
    (∃ m, Matcher.start (reconcile ends config tokenizerConfig tokenizer) c = .ok m) ↔
      c = .free ∨ (reconcile ends config tokenizerConfig tokenizer).Readable := by
  rw [Matcher.exists_start_iff, Matcher.exists_bind_iff, and_iff_right]
  intro id hid
  obtain ⟨s, -, hfirst⟩ := exists_of_mem_stop hid
  exact hfirst.lt_size

/-- The stop tokens are the first with the surfaces that the caller names, in that order, and then with the end token;
a surface that is empty or not there names none. They have slots, and so have the special tokens, which are ascending
and no stop tokens. So a matcher without a grammar always starts, and one under a pattern does unless a token that is
not special has no bytes. -/
theorem reconcile_roles (extraEnds : List String) (config : Option ModelConfig)
    (tokenizerConfig : Option TokenizerConfig) (tokenizer : TokenizerData) :
    let l := reconcile extraEnds config tokenizerConfig tokenizer
    (∃ eos : Option String, (∀ s, eos = some s ↔ NamesEnd tokenizerConfig s) ∧
        l.stop.ids = ((extraEnds ++ eos.toList).filterMap l.vocabulary.find?).eraseDups ∧
        (∀ s id, l.vocabulary.find? s = some id ↔ l.vocabulary.FirstAt s id) ∧
        ∀ id ∈ l.stop, id.toNat < l.size ∧
          ∃ s ∈ extraEnds ++ eos.toList, s ≠ "" ∧ l.vocabulary.surface? id = some s) ∧
      l.special.Pairwise (· < ·) ∧ (∀ id ∈ l.special, id.toNat < l.size ∧ id ∉ l.stop) ∧
      (∃ m, Matcher.start l .free = .ok m) ∧ ∀ p, (∃ m, Matcher.start l (.pattern p) = .ok m) ↔ l.Readable := by
  intro l
  refine ⟨⟨_, fun s => endSurface?_eq_some_iff, stop_reconcile,
    fun s id => Vocabulary.find?_eq_some_iff size_reconcile_le, ?_⟩, pairwise_ascending _, ?_, ?_, ?_⟩
  · intro id hid
    obtain ⟨s, hs, hfirst⟩ := exists_of_mem_stop hid
    exact ⟨hfirst.lt_size, s, hs, hfirst.1, hfirst.2.1⟩
  · intro id hid
    obtain ⟨hlt, hstop, -⟩ := special_reconcile.mp hid
    exact ⟨hlt, hstop⟩
  · exact exists_start_reconcile.mpr (Or.inl rfl)
  · intro p
    exact exists_start_reconcile.trans (or_iff_right (by simp))

def relabelled (first last : Bool) : TokenizerData where
  model := { vocabulary := some (.object [("a", naturalNumber 0)]) }
  addedTokens := some
    [{ AddedToken.of 1 "x" with special := some first }, { AddedToken.of 1 "y" with special := some last }]

/-- The caller names what has the slot, what had it and what has it again; the key is the end of a sequence. Both
tokens are stop tokens then, and the marks make neither of them special. -/
theorem reconcile_roles_relabelled :
    let l := reconcile ["", "y", "x", "y"] none (some (.ofEndToken "a")) (relabelled true true)
    l.stop.ids = [1, 0] ∧ l.special = [] ∧ ∃ m, Matcher.start l .free = .ok m := by
  obtain ⟨-, -, -, hstart, -⟩ :=
    reconcile_roles ["", "y", "x", "y"] none (some (.ofEndToken "a")) (relabelled true true)
  exact ⟨by decide +kernel, by decide +kernel, hstart⟩

/-- A token is special exactly if some added token with its id is marked, unless it is a stop token. This is not the
last of them only where one without a mark takes the slot from one that has it. The token then has the surface of the
last, but it has no bytes; every other token whose surface is not from a marked one has those of its surface. -/
theorem isSpecial_reconcile (ends : List String) (config : Option ModelConfig)
    (tokenizerConfig : Option TokenizerConfig) (tokenizer : TokenizerData) (id : TokenId) :
    let l := reconcile ends config tokenizerConfig tokenizer
    let i := id.toNat
    (l.isSpecial id = true ↔ i < l.size ∧ id ∉ l.stop ∧ tokenizer.Marks i) ∧
      ((l.isSpecial id = true ↔ i < l.size ∧ id ∉ l.stop ∧ tokenizer.LastMarks i) ↔
        ¬ (i < l.size ∧ id ∉ l.stop ∧ tokenizer.Unmarks i)) ∧
      (∀ a s, tokenizer.Supplies i a → a.Defines i s → i < l.size → l.vocabulary.surface? id = some s) ∧
      ∀ table s, l.table = .ok table → l.vocabulary.surface? id = some s → ¬ tokenizer.LastMarks i →
        ∃ bytes, table[i]? = some bytes ∧ (id ∉ l.stop ∧ tokenizer.Unmarks i → bytes = []) ∧
          (¬ (id ∉ l.stop ∧ tokenizer.Unmarks i) → l.encoding.bytes s = .ok bytes) := by
  intro l i
  have hspecial : l.isSpecial id = true ↔ i < l.size ∧ id ∉ l.stop ∧ tokenizer.Marks i := by
    rw [← special_reconcile]
    exact List.contains_iff_mem
  have hlast : tokenizer.LastMarks i → ¬ tokenizer.Unmarks i := TokenizerData.LastMarks.not_unmarks
  refine ⟨hspecial, ?_, fun a s ha hs hi => surface?_reconcile (ha.lastAdds hs) hi, ?_⟩
  · rw [hspecial, TokenizerData.marks_iff]
    tauto
  · intro table s ht hs hordinary
    obtain ⟨bytes, hentry, hbytes⟩ := Lexicon.table_entry ht hs
    have hi : i < l.size := (Array.getElem?_eq_some_iff.mp hs).1
    refine ⟨bytes, hentry, ?_, ?_⟩
    · rintro ⟨hstop, hunmarks⟩
      rw [Lexicon.bytesOf, if_pos (hspecial.mpr ⟨hi, hstop, hunmarks.1⟩)] at hbytes
      cases hbytes
      rfl
    · intro hkept
      have hnot : ¬ l.isSpecial id = true := by
        rw [hspecial, TokenizerData.marks_iff]
        tauto
      rwa [Lexicon.bytesOf, if_neg hnot] at hbytes

theorem lastMarks_relabelled {first last : Bool} : (relabelled first last).LastMarks 1 ↔ last = true := by
  have hlast : (relabelled first last).Supplies 1 { AddedToken.of 1 "y" with special := some last } :=
    ⟨[_], [], rfl, ⟨"y", defines_of.mpr ⟨rfl, rfl⟩⟩, by simp⟩
  constructor
  · rintro ⟨a, ha, hmark⟩
    rw [ha.unique hlast] at hmark
    exact Option.some.inj hmark
  · rintro rfl
    exact ⟨_, hlast, rfl⟩

/-- The second of the added tokens has the slot and is marked. -/
theorem isSpecial_reconcile_relabelled :
    (relabelled false true).LastMarks 1 ∧ (reconcile [] none none (relabelled false true)).isSpecial 1 = true := by
  have hlast : (relabelled false true).LastMarks 1 := lastMarks_relabelled.mpr rfl
  refine ⟨hlast, (isSpecial_reconcile [] none none (relabelled false true) 1).1.mpr ⟨?_, ?_, hlast.marks⟩⟩
  · decide +kernel
  · decide

/-- The second of the added tokens has the slot and is not marked. It is special all the same, and has no bytes. -/
theorem isSpecial_of_unmarked :
    (reconcile [] none none (relabelled true false)).vocabulary.surface? 1 = some "y" ∧
      ¬ ((reconcile [] none none (relabelled true false)).isSpecial 1 = true ↔
          1 < (reconcile [] none none (relabelled true false)).size ∧
            1 ∉ (reconcile [] none none (relabelled true false)).stop ∧ (relabelled true false).LastMarks 1) ∧
      ((reconcile [] none none (relabelled true false)).table.toOption.bind (·[1]?)) = some [] := by
  refine ⟨by decide +kernel, ?_, by decide +kernel⟩
  intro h
  have hspecial : (reconcile [] none none (relabelled true false)).isSpecial 1 = true := by decide +kernel
  have hlast := lastMarks_relabelled.mp (h.mp hspecial).2.2
  cases hlast

end GuidedDecoding
