import GuidedDecoding.Proofs.Matcher.Cuts
import GuidedDecoding.Proofs.Pattern.Live

/-!
# Texts that can be brought to an end

Under a pattern, nothing may come next where no token has bytes that keep the walk alive (`Matcher.Grows`) and no
stop token may end the text (`Stands.not_mem_mask_iff`); and a token ends the text if it is a stop token, or if
there is none and nothing may follow a match (`Stands.accept_eq_terminal_iff`).

With a stop token, a token for each byte and a live pattern there is no dead end: from every state that is
reachable, tokens of the masks lead to the end of the text (`exists_finishes`). What completes the walk is known in
bytes, and the tokens of single bytes spell it out.
-/

namespace GuidedDecoding

/-- For every byte there is a token of that byte alone. -/
def Lexicon.SpellsBytes (l : Lexicon) : Prop :=
  ∀ b : UInt8, ∃ id s, l.vocabulary.surface? id = some s ∧ id ∉ l.stop ∧ id ∉ l.special ∧
    l.bytesOf id s = .ok [b]

namespace Matcher

variable {l : Lexicon} {c : Constraint} {p : Pattern} {table : Array Bytes} {walk : Pattern.Walk} {m : Matcher}
  {id stop : TokenId}

/-- Some token other than a stop token has bytes that keep the walk alive. -/
def Grows (l : Lexicon) (table : Array Bytes) (walk : Pattern.Walk) : Prop :=
  ∃ id : TokenId, id.toNat < l.size ∧ id ∉ l.stop ∧ l.contribution table id ≠ [] ∧
    (walk.run (l.contribution table id)).isAlive = true

/-! ### One token -/

/-- A matcher that goes on behind a token has not accepted a stop token. -/
theorem Stands.accept_of_continues (h : m.Stands l table walk) (ht : l.table = .ok table)
    (hv : (m.accept id).2 = .continues) :
    id.toNat < l.size ∧ id ∉ l.stop ∧ (m.accept id).1.Stands l table (walk.run (l.contribution table id)) ∧
      (walk.run (l.contribution table id)).isAlive = true := by
  have houtcome := accept_outcome m id
  generalize (m.accept id).1 = next, (m.accept id).2 = v at houtcome hv ⊢
  subst hv
  cases houtcome with
  | accepted _ hlt ho _ =>
    rw [h.recognizer_eq] at ho
    rw [h.lexicon_eq] at hlt
    cases ho with
    | free _ _ hfree => cases hfree
    | grows _ hnot hwalk hb halive =>
      cases hwalk
      have hid : id ∉ l.stop := by
        intro hstop
        rw [Lexicon.isStop_iff.mpr hstop] at hnot
        cases hnot
      obtain rfl := Option.some.inj (hb.symm.trans (table_getElem? ht hlt hid))
      exact ⟨hlt, hid, ⟨h.lexicon_eq, rfl, rfl⟩, halive⟩

theorem isSpent_iff (ht : l.table = .ok table) :
    Recognizer.isSpent { lexicon := l, progress := .walk table walk } = true ↔
      l.stop.isEmpty = true ∧ walk.isComplete = true ∧ ¬ Grows l table walk := by
  have hcontinues : Recognizer.continues { lexicon := l, progress := .walk table walk } = true ↔
      Grows l table walk := by
    rw [Recognizer.continues_iff]
    exact exists_congr fun id => and_congr_right fun hlt => and_congr_right fun hid => permits_iff ht hlt hid
  simp only [Recognizer.isSpent, Bool.and_eq_true, Bool.not_eq_true', ← hcontinues, and_assoc, Bool.not_eq_true]

/-- A stop token that is accepted ends the text. -/
theorem Stands.accept_stop_eq_terminal (h : m.Stands l table walk) (ht : l.table = .ok table) (hstop : stop ∈ l.stop)
    (hv : (m.accept stop).2 ≠ .rejected) : (m.accept stop).2 = .terminal := by
  cases hanswer : (m.accept stop).2 with
  | rejected => exact absurd hanswer hv
  | terminal => rfl
  | continues => exact absurd hstop (h.accept_of_continues ht hanswer).2.1

/-- The answer depends on the walk alone. -/
theorem Stands.verdict_eq (h : m.Stands l table walk) (hlt : id.toNat < l.size) :
    (m.accept id).2 = (Recognizer.accept { lexicon := l, progress := .walk table walk } id).2 := by
  unfold Matcher.accept
  rw [h.open_text, h.lexicon_eq, h.recognizer_eq, if_neg (by simpa using hlt)]
  generalize Recognizer.accept _ id = answer
  obtain ⟨r, v⟩ := answer
  cases v with
  | continues => rfl
  | terminal => rfl
  | rejected => rfl

/-- A token ends the text if it is a stop token, or if there are none, the text matches, and nothing may follow. -/
theorem Stands.accept_eq_terminal_iff (h : m.Stands l table walk) (ht : l.table = .ok table)
    (hv : (m.accept id).2 ≠ .rejected) :
    (m.accept id).2 = .terminal ↔ id ∈ l.stop ∨ l.stop.isEmpty = true ∧
      (walk.run (l.contribution table id)).isComplete = true ∧
      ¬ Grows l table (walk.run (l.contribution table id)) := by
  have hlt : id.toNat < l.size := by
    rw [← h.lexicon_eq]
    exact ((accept_ne_rejected_iff m id).mp hv).2.1
  by_cases hid : id ∈ l.stop
  · have hterminal : (m.accept id).2 = .terminal := h.accept_stop_eq_terminal ht hid hv
    simp [hterminal, hid]
  · obtain ⟨hne, halive⟩ := (h.accept_iff ht hlt hid).mp hv
    have haccept := Recognizer.accept_of_extend (r := { lexicon := l, progress := .walk table walk }) rfl
      (table_getElem? ht hlt hid) rfl (Lexicon.isStop_eq_false hid)
      (Recognizer.extend?_eq_some_iff.mpr ⟨hne, halive, rfl⟩)
    rw [← isSpent_iff ht, h.verdict_eq hlt, haccept]
    split
    · next hspent => simp [Recognizer.finish, hid, hspent]
    · next hspent => simp [hid, hspent]

/-- Nothing is permitted where no token has bytes to go on with, and no stop token may end the text. -/
theorem Stands.not_mem_mask_iff (h : m.Stands l table walk) (ht : l.table = .ok table) (hb : Bound l c m) :
    (∀ id, id ∉ m.mask) ↔ ¬ Grows l table walk ∧ (walk.isComplete = true → ∀ stop, stop ∉ l.stop) := by
  simp only [mem_mask_iff_accept hb, not_not]
  constructor
  · intro hall
    refine ⟨?_, ?_⟩
    · rintro ⟨id, hlt, hid, hgrows⟩
      exact (h.accept_iff ht hlt hid).mpr hgrows (hall id)
    · intro hcomplete stop hstop
      exact (h.accept_stop ht hstop (hb.stop_lt stop hstop)).mpr hcomplete (hall stop)
  · rintro ⟨hgrows, hstop⟩ id
    by_contra haccepts
    have hlt : id.toNat < l.size := by
      rw [← h.lexicon_eq]
      exact ((accept_ne_rejected_iff m id).mp haccepts).2.1
    by_cases hid : id ∈ l.stop
    · exact hstop ((h.accept_stop ht hid hlt).mp haccepts) id hid
    · exact hgrows ⟨id, hlt, hid, (h.accept_iff ht hlt hid).mp haccepts⟩

/-! ### Any calls -/

theorem terminated_accept_of_terminal (hv : (m.accept id).2 = .terminal) : (m.accept id).1.terminated = true := by
  have houtcome := accept_outcome m id
  generalize (m.accept id).1 = next, (m.accept id).2 = v at houtcome hv ⊢
  subst hv
  cases houtcome
  rfl

/-- A matcher that has not ended the text has come to a walk that is alive. -/
theorem Reachable.exists_stands (h : Reachable l (.pattern p) m) (hopen : m.terminated = false) :
    ∃ table bytes, l.table = .ok table ∧ m.Stands l table (p.start.run bytes) ∧
      (p.start.run bytes).isAlive = true := by
  -- on how the matcher was reached; the text is open, so only tokens since the last reset count
  induction h with
  | start hm =>
    obtain ⟨table, ht, hstands⟩ := stands_of_start hm
    exact ⟨table, [], ht, hstands, rfl⟩
  | @call m q h ih =>
    cases q with
    | accept id =>
      change (m.accept id).1.terminated = false at hopen
      show ∃ table bytes, _ ∧ (m.accept id).1.Stands _ _ _ ∧ _
      -- a rejected token changes nothing, and one that ends the text would not leave it open
      cases hv : (m.accept id).2 with
      | rejected =>
        rw [accept_of_rejected hv] at hopen ⊢
        exact ih hopen
      | terminal =>
        rw [terminated_accept_of_terminal hv] at hopen
        cases hopen
      | continues =>
        have hm : m.terminated = false := ((accept_ne_rejected_iff m id).mp (by simp [hv])).1
        obtain ⟨table, bytes, ht, hstands, -⟩ := ih hm
        obtain ⟨-, -, hnext, halive⟩ := hstands.accept_of_continues ht hv
        rw [← Pattern.Walk.run_append] at hnext halive
        exact ⟨table, _, ht, hnext, halive⟩
    | reset =>
      obtain ⟨start, hstart, -⟩ := h.bound.exists_reset
      obtain ⟨table, ht, hstands⟩ := stands_of_start hstart
      rw [h.bound.call_reset hstart]
      exact ⟨table, [], ht, hstands, rfl⟩
    | mask => exact ih hopen
    | fill buffer => exact ih hopen

/-! ### To the end -/

/-- Each of the tokens is in the mask of its step, and the last one ends the text. -/
def Finishes (m : Matcher) : List TokenId → Prop
  | [] => False
  | id :: ids => id ∈ m.mask ∧
    ((m.accept id).2 = .terminal ∧ ids = [] ∨ (m.accept id).2 = .continues ∧ (m.accept id).1.Finishes ids)

/-- Any other token that is accepted does not, if there is a stop token. -/
theorem Stands.accept_eq_continues (h : m.Stands l table walk) (ht : l.table = .ok table) (hstop : stop ∈ l.stop)
    (hid : id ∉ l.stop) (hv : (m.accept id).2 ≠ .rejected) : (m.accept id).2 = .continues := by
  cases hanswer : (m.accept id).2 with
  | rejected => exact absurd hanswer hv
  | terminal =>
    have hended := terminated_accept_of_terminal hanswer
    rw [(h.accept ht hstop hid hv).open_text] at hended
    cases hended
  | continues => rfl

/-- A matcher of a pattern can be started where the vocabulary is usable and holds all stop tokens. -/
theorem exists_start (ht : l.table = .ok table) (hstop : ∀ id ∈ l.stop, id.toNat < l.size) :
    ∃ m, Matcher.start l (.pattern p) = .ok m :=
  exists_start_iff.mpr ⟨hstop, _, bind_eq_ok ht⟩

/-- For each byte an ordinary token contributes just that byte. -/
theorem exists_contribution (h : l.SpellsBytes) (ht : l.table = .ok table) (b : UInt8) :
    ∃ id : TokenId, id.toNat < l.size ∧ id ∉ l.stop ∧ l.contribution table id = [b] := by
  obtain ⟨id, s, hs, hid, -, hb⟩ := h b
  obtain ⟨hlt, -⟩ := Array.getElem?_eq_some_iff.mp hs
  obtain ⟨bytes, hentry, hbytes⟩ := Lexicon.table_entry ht hs
  refine ⟨id, hlt, hid, ?_⟩
  rw [table_getElem? ht hlt hid, Option.some.injEq] at hentry
  rw [hb, ← hentry, Except.ok.injEq] at hbytes
  exact hbytes.symm

/-- The bytes that complete a walk can be given one by one, and then the stop token. -/
theorem Stands.finishes_of_isComplete_run {bytes : Bytes} (h : m.Stands l table walk) (ht : l.table = .ok table)
    (hb : Bound l c m) (hstop : stop ∈ l.stop) (hspells : l.SpellsBytes)
    (hcomplete : (walk.run bytes).isComplete = true) : ∃ ids, m.Finishes ids := by
  induction bytes generalizing m walk with
  | nil =>
    have hv := (h.accept_stop ht hstop (hb.stop_lt stop hstop)).mpr hcomplete
    have hmem := (mem_mask_iff_accept hb).mpr hv
    exact ⟨[stop], hmem, Or.inl ⟨h.accept_stop_eq_terminal ht hstop hv, rfl⟩⟩
  | cons b bytes ih =>
    obtain ⟨id, hlt, hid, hbyte⟩ := exists_contribution hspells ht b
    have halive : (walk.run [b]).isAlive = true := Pattern.Walk.isAlive_of_isComplete_run hcomplete
    have hv : (m.accept id).2 ≠ .rejected := by
      rw [h.accept_iff ht hlt hid, hbyte]
      exact ⟨List.cons_ne_nil b [], halive⟩
    have hnext := h.accept ht hstop hid hv
    rw [hbyte] at hnext
    obtain ⟨ids, hids⟩ := ih hnext (hb.accept id) hcomplete
    have hmem := (mem_mask_iff_accept hb).mpr hv
    exact ⟨id :: ids, hmem, Or.inr ⟨h.accept_eq_continues ht hstop hid hv, hids⟩⟩

/-- There is no dead end: where every byte has a token, there is a stop token, and the pattern is live, some
tokens of the masks lead from every state to the end of the text, and masking scores does not fail. -/
theorem exists_finishes (h : Reachable l (.pattern p) m) (hopen : m.terminated = false) (hstop : stop ∈ l.stop)
    (hspells : l.SpellsBytes) (hlive : p.Live) :
    (∃ id, id ∈ m.mask) ∧ (∃ ids, m.Finishes ids) ∧
      ∀ (g : LogitGate) (xs : List Float32), g.matcher = m → l.size ≤ xs.length →
        (g.apply (.ofSingles xs)).2 = .ok (m.mask.apply xs) := by
  obtain ⟨table, bytes, ht, hstands, halive⟩ := h.exists_stands hopen
  obtain ⟨more, hcomplete⟩ := hlive bytes halive
  obtain ⟨ids, hids⟩ := hstands.finishes_of_isComplete_run ht h.bound hstop hspells hcomplete
  have hmask : ∃ id, id ∈ m.mask := by
    cases ids with
    | nil => exact hids.elim
    | cons id ids => exact ⟨id, hids.1⟩
  refine ⟨hmask, ⟨ids, hids⟩, ?_⟩
  rintro g xs rfl hwide
  obtain ⟨id, hid⟩ := hmask
  have hlt : id.toNat < l.size := ((mem_mask h.bound).mp hid).2.1
  exact LogitGate.apply_eq_ok ⟨id, hid, Nat.lt_of_lt_of_le hlt hwide⟩

def byteSurface (b : UInt8) : String :=
  String.ofList ['<', '0', 'x', Nat.digitChar (b.toNat / 16), Nat.digitChar (b.toNat % 16), '>']

def byteSurfaces : List String := (List.range 256).map (fun n => byteSurface n.toUInt8) ++ ["</s>"]

def singleBytes : Lexicon where
  vocabulary := ⟨byteSurfaces.toArray, by simp [byteSurfaces]⟩
  encoding := .byteFallback
  stop := ⟨[256], List.nodup_singleton 256⟩

/-- The surface of a byte stands for it. -/
theorem bytes_byteSurface (b : UInt8) : SurfaceEncoding.fallbackBytes (byteSurface b) = .ok [b] := by
  unfold SurfaceEncoding.fallbackBytes Utf8.encode byteSurface
  rw [String.toList_ofList]
  revert b
  decide +kernel

theorem spellsBytes_singleBytes : singleBytes.SpellsBytes := by
  intro b
  have hget : singleBytes.vocabulary.surface? b.toUInt32 = some (byteSurface b) := by
    show byteSurfaces.toArray[b.toUInt32.toNat]? = _
    have hlt : b.toNat < 256 := b.toNat_lt
    simp [byteSurfaces, List.getElem?_append, hlt]
  have hbytes : singleBytes.bytesOf b.toUInt32 (byteSurface b) = .ok [b] := by
    simp [Lexicon.bytesOf, Lexicon.isSpecial, singleBytes, SurfaceEncoding.bytes, bytes_byteSurface]
  refine ⟨b.toUInt32, byteSurface b, hget, ?_, List.not_mem_nil, hbytes⟩
  intro hstop
  have heq : b.toUInt32 = 256 := List.mem_singleton.mp hstop
  have hlt : b.toNat < 256 := b.toNat_lt
  have hnat : b.toNat = 256 := congrArg UInt32.toNat heq
  omega

theorem stop_lt_singleBytes : ∀ id ∈ singleBytes.stop, id.toNat < singleBytes.size := by
  intro id hid
  obtain rfl : id = 256 := List.mem_singleton.mp hid
  simp [singleBytes, byteSurfaces, Lexicon.size, Vocabulary.size]

theorem exists_table_singleBytes : ∃ table, singleBytes.table = .ok table := by
  apply Lexicon.exists_table
  intro s hs
  have hlist : s ∈ byteSurfaces.toArray := hs
  rw [List.mem_toArray, byteSurfaces, List.mem_append, List.mem_singleton] at hlist
  rcases hlist with hbyte | rfl
  · obtain ⟨n, -, rfl⟩ := List.mem_map.mp hbyte
    exact ⟨_, bytes_byteSurface _⟩
  · have hend : SurfaceEncoding.fallbackBytes "</s>" = .ok [0x3C, 0x2F, 0x73, 0x3E] := by cbv
    exact ⟨_, hend⟩

def accented : Pattern := ⟨"é", .seq (.ofSet (.singleton 'é')) (.look .textEnd)⟩

/-- A character of two bytes is plain, so each byte that goes on can be completed. -/
theorem accented_live : accented.Live := by
  have hread : Pattern.Tree.read? "é".toList = some (.literal ⟨'é', false⟩) := by cbv
  have hexpr : (Pattern.Tree.literal ⟨'é', false⟩).expr? = some (.ofSet (.singleton 'é')) := by cbv
  have hp : Pattern.ofText? "é" = some accented := by cbv
  have hmem : (CharSet.singleton 'é').contains 'é'.toNat = true := by cbv
  exact Pattern.live_of_plain hread hexpr (Pattern.Expr.plain_ofSet.mpr ⟨'é', hmem⟩) hp

/-- Inside that character a matcher gets to the end, by the token of the byte that is missing. -/
theorem exists_finishes_accented :
    ∃ m, Matcher.start singleBytes (.pattern accented) = .ok m ∧
      ∃ id, (m.accept id).2 = .continues ∧ ∃ ids, (m.accept id).1.Finishes ids := by
  have hstop : (256 : TokenId) ∈ singleBytes.stop := List.mem_singleton_self 256
  obtain ⟨table, ht⟩ := exists_table_singleBytes
  obtain ⟨m, hm⟩ := exists_start (p := accented) ht stop_lt_singleBytes
  refine ⟨m, hm, ?_⟩
  obtain ⟨id, hlt, hid, hbyte⟩ := exists_contribution spellsBytes_singleBytes ht 0xC3
  have hstands := stands_start hm ht
  have halive : (accented.start.run [0xC3]).isAlive = true := by cbv
  have hv := (hstands.accept_iff ht hlt hid).mpr (by rw [hbyte]; exact ⟨List.cons_ne_nil _ _, halive⟩)
  have hcontinues := hstands.accept_eq_continues ht hstop hid hv
  refine ⟨id, hcontinues, ?_⟩
  have hopen := (hstands.accept ht hstop hid hv).open_text
  exact (exists_finishes (.call (.accept id) (.start hm)) hopen hstop spellsBytes_singleBytes accented_live).2.1

end Matcher
end GuidedDecoding
