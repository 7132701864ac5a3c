import GuidedDecoding.Proofs.Json.Partial

/-!
# Which repaired documents can be read

What is repaired of a beginning of a document can be read again, but for one exception
(`repair_readable_iff`). An escape that is cut off is left out of an open string. A character beyond the
first 65536 takes two escapes, though, and when only the second of them is cut off the first one stays: with
a quote behind it the string has half a surrogate pair, which cannot be read.

At a checkpoint the text is outside of strings, and the open containers may be closed there. So all depends on
the string in which the text ends.
-/

namespace GuidedDecoding.Json

open Progress
open Repair (Checkpoint)
open Scan (Finds)

/-- What is kept ends in a string, behind the first half of a surrogate pair. -/
def Repaired.SplitsPair (d : Repaired) : Prop :=
  ∃ t, Scan.between.after d.kept = .text t ∧ t.high.isSome = true

/-! ### Strings -/

namespace TextScan

variable {t : TextScan} {k : List Char}

/-- A string that ends behind the first half of a pair cannot be read. -/
theorem token_of_high (h : t.high.isSome = true) : t.token = .unpairedText := by
  obtain ⟨u, hu⟩ := Option.isSome_iff_exists.mp h
  rw [token, hu]

/-- Any other string can be read as far as it has been. -/
theorem token_of_content (hk : t.content = .ok k) (h : t.high = none) : t.token = .text (String.ofList k.reverse) := by
  rw [token, h, hk]

end TextScan

/-- Where a string is read, it can be read. -/
theorem Progress.Runs.exists_text {p q : Progress} {ts us : List Token} {t : Token} (h : Runs p (ts ++ t :: us) q)
    (ht : t.kind? = some .text) : ∃ s, t = .text s := by
  obtain ⟨p', -, h⟩ := runs_append.mp h
  obtain ⟨stack, awaiting, p'', -, hm, -, -⟩ := h.exists_moves
  exact exists_text_of_moves hm ht

/-- A token that is a value by itself is read where a value is due, however deep that is. -/
theorem Progress.step_scalar {limit : Nat} {stack : List Frame} {awaiting : Awaiting} {t : Token} {u : Value}
    (ha : awaiting.IsValue) (hv : t.value? = some u) : step limit stack awaiting t = .ok (supply u stack) := by
  unfold Token.value? at hv
  split at hv <;> cases hv <;> cases ha <;> rfl

/-! ### Checkpoints -/

section Checkpoint

variable {m : Checkpoint} {ts : List Token} {p : Progress}

/-- What is closed at a checkpoint can be read. -/
theorem Repair.Checkpoint.At.readable (h : m.At ts p) :
    ∃ w, Runs .start (tokens (m.kept.reverse ++ m.closers)) (.done w) := by
  obtain ⟨w, -, hclosers⟩ := h.closable.runs_closers
  refine ⟨w, ?_⟩
  rw [h.tokens_closed]
  exact runs_append.mpr ⟨p, h.reached, hclosers⟩

/-- No checkpoint is inside a string, because a string without an end is not read. -/
theorem Repair.Checkpoint.At.not_splitsPair (h : m.At ts p) : ¬Repaired.SplitsPair ⟨m.kept.reverse, m.closers⟩ := by
  rintro ⟨t, hafter, -⟩
  have hfinds : Finds m.kept.reverse (.text t) (Scan.between.emitted m.kept.reverse) := ⟨hafter, rfl⟩
  have hreached := h.reached
  rw [← h.cut.tokens_eq, hfinds.tokens_eq] at hreached
  obtain ⟨s, hs⟩ := hreached.exists_text (t.kind?_brokenToken .truncated)
  exact t.not_isWholeText_brokenToken .truncated (Or.inr ⟨s, hs⟩)

end Checkpoint

/-! ### Beginnings of documents -/

section Tracks

variable {all : List Token} {v : Value} {seen rest : List Char} {r : Repair} {d : Repaired}

/-- A string value that is closed early can be read unless a pair is split there. -/
theorem InText.readable_iff {t : TextScan} {k : List Char} {passed ahead : List Token} {s : String}
    {stack : List Frame} (h : InText all v seen d passed ahead s t.token stack) (hk : t.content = .ok k) :
    (∃ w, Runs .start (tokens (d.kept ++ d.closing)) (.done w)) ↔ t.high = none := by
  rw [h.repaired]
  constructor
  · rintro ⟨w, hw⟩
    obtain ⟨s', hs'⟩ := hw.exists_text h.kind
    by_contra hhigh
    rw [TextScan.token_of_high (Option.isSome_iff_ne_none.mpr hhigh)] at hs'
    cases hs'
  · intro hhigh
    obtain ⟨awaiting, ha, hreached⟩ := h.reached
    rw [TextScan.token_of_content hk hhigh]
    -- The string is handed to the innermost container, and then all of them are closed.
    obtain ⟨w, -, hclosers⟩ := runs_closers_supply (.text (String.ofList k.reverse)) stack
    exact ⟨w, runs_append.mpr ⟨_, hreached, .cons (step_scalar ha rfl) hclosers⟩⟩

/-- What is repaired can be read unless a pair is split. -/
theorem Tracks.readable_iff (h : Tracks (tokens (seen ++ rest)) v seen rest r) (hd : r.repaired = some d) :
    (∃ w, Runs .start (tokens (d.kept ++ d.closing)) (.done w)) ↔ ¬d.SplitsPair := by
  rcases h.rests_or_inText with ⟨n, hrests⟩ | ⟨d', passed, ahead, s, t, k, stack, hd', hfinds, hk, hin⟩
  · obtain ⟨m, ts, p, rfl, hat, -⟩ := hrests.exists_of_some hd
    exact iff_of_true hat.readable hat.not_splitsPair
  · obtain rfl : d' = d := Option.some.inj (hd'.symm.trans hd)
    rw [hin.readable_iff hk, Repaired.SplitsPair, hfinds.after]
    cases hhigh : t.high <;> simp [hhigh]

end Tracks

/-! ### Reading a repaired document -/

/-- What is repaired of a beginning of a document can be read, unless the text kept ends between the two
escapes of a surrogate pair. -/
theorem repair_readable_iff {document text : String} {v : Value} {r : Repaired} (hparse : parse document = .ok v)
    (hbegin : text.toList <+: document.toList) (hr : repair text = some r) :
    (∃ w, parse r.text = .ok w) ↔ ¬r.SplitsPair := by
  obtain ⟨rest, hrest⟩ := hbegin
  have hruns : Runs .start (tokens (text.toList ++ rest)) (.done v) := by
    rw [hrest]
    exact Value.ofTokens_eq_ok_iff.mp hparse
  rw [← (Tracks.scan hruns).readable_iff hr]
  refine exists_congr fun w => ?_
  rw [parse, Repaired.text, String.toList_ofList]
  exact Value.ofTokens_eq_ok_iff

/-- A document that has been written up to the middle of an escape: the first one of a pair is dropped, and the
string can be read; the second one is dropped, and it cannot. -/
theorem repair_readable_iff_in_pair :
    (∃ w, parse (⟨"[\"a".toList, "\"]".toList⟩ : Repaired).text = .ok w) ∧
      ¬∃ w, parse (⟨"[\"a\\ud83d".toList, "\"]".toList⟩ : Repaired).text = .ok w := by
  have hparse : parse "[\"a\\ud83d\\ude00\"]" = .ok (.array [.text "a😀"]) := rfl
  have hfirst : repair "[\"a\\ud8" = some ⟨"[\"a".toList, "\"]".toList⟩ := by decide
  have hsecond : repair "[\"a\\ud83d\\ude" = some ⟨"[\"a\\ud83d".toList, "\"]".toList⟩ := by decide
  constructor
  · refine (repair_readable_iff hparse (by decide) hfirst).mpr ?_
    rintro ⟨t, hafter, hhigh⟩
    cases hafter
    cases hhigh
  · refine mt (repair_readable_iff hparse (by decide) hsecond).mp (not_not_intro ?_)
    exact ⟨_, rfl, rfl⟩

/-- Half a pair is left at the end of the string, and the document that is repaired is malformed. -/
theorem parse_repair_of_half_pair :
    parse "[\"a\\ud83d\\ude00\"]" = .ok (.array [.text "a😀"]) ∧
      "[\"a\\ud83d".toList <+: "[\"a\\ud83d\\ude00\"]".toList ∧
      ∃ r, repair "[\"a\\ud83d" = some r ∧ parse r.text = .error .malformed :=
  ⟨rfl, by decide, ⟨"[\"a\\ud83d".toList, "\"]".toList⟩, by decide, rfl⟩

end GuidedDecoding.Json
