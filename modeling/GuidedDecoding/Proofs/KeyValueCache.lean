import GuidedDecoding.KeyValueCache
import GuidedDecoding.Proofs.Tensor

/-!
# Calls on a cache, of which some fail

A layer takes in a key and a value if both fit what it holds, and otherwise it stays as it is, even if only the value
does not fit (`LayerCache.Holds.append`). So it holds the keys and the values of the calls that succeeded, one behind
the other, whatever other calls stood between them (`LayerCache.append_behind`).
-/

namespace GuidedDecoding
namespace LayerCache

open Tensor (Fits IsFull Concatenates concatenates_singleton sizeAlong)

abbrev Pair := Tensor × Tensor

variable {c : LayerCache} {done calls : List Pair} {key value : Tensor}

/-- A block of keys or values: it has four dimensions, and as many elements as they say. -/
def IsBlock (t : Tensor) : Prop := t.dims.length = 4 ∧ t.IsFull

/-- One more call: the cache behind it, and the calls that have succeeded. -/
def call (s : LayerCache × List Pair) (p : Pair) : LayerCache × List Pair :=
  match s.1.append p.1 p.2 with
  | (c, .ok _) => (c, s.2 ++ [p])
  | (c, .error _) => (c, s.2)

/-- The cache behind some calls on an empty one, and those that have succeeded. -/
def appendAll (calls : List Pair) : LayerCache × List Pair := calls.foldl call ({}, [])

/-- The key fits the first key, and the value the first value, if there are any. -/
def Accepts (done : List Pair) (key value : Tensor) : Prop :=
  ∀ first ∈ done.head?, Fits positionAxis first.1 key ∧ Fits positionAxis first.2 value

/-- What the cache holds: the keys one behind the other, and the values. -/
inductive Holds : LayerCache → List Pair → Prop
  | empty : Holds {} []
  | content {keys values : Tensor} {done : List Pair} : done ≠ [] →
      Concatenates positionAxis (done.map Prod.fst) keys → Concatenates positionAxis (done.map Prod.snd) values →
      Holds ⟨some (keys, values)⟩ done

/-- The length is the sum of the lengths of the keys. -/
theorem Holds.length? (h : Holds c done) :
    c.length? = some ((done.map fun p => sizeAlong positionAxis p.1).sum) := by
  cases h with
  | empty => rfl
  | @content keys values done hne hkeys hvalues =>
    have hsize := hkeys.size_eq
    rw [List.map_map] at hsize
    show keys.dims[positionAxis]? = _
    rw [List.getElem?_eq_getElem hkeys.axis_lt]
    refine congrArg some (Eq.trans ?_ hsize)
    rw [sizeAlong, List.getD_eq_getElem?_getD, List.getElem?_eq_getElem hkeys.axis_lt, Option.getD_some]

/-- What does not fit changes nothing, and what fits comes behind the rest. -/
theorem Holds.append (h : Holds c done) (hkey : IsBlock key) (hvalue : IsBlock value) :
    (¬ Accepts done key value → ∃ e, c.append key value = (c, .error e)) ∧
      (Accepts done key value → ∃ keys values, c.append key value = (⟨some (keys, values)⟩, .ok (keys, values)) ∧
        Concatenates positionAxis (done.map Prod.fst ++ [key]) keys ∧
        Concatenates positionAxis (done.map Prod.snd ++ [value]) values) := by
  have haxis {t : Tensor} (ht : IsBlock t) : positionAxis < t.dims.length := by
    rw [ht.1]
    decide
  cases h with
  | empty =>
    refine ⟨fun hnot => absurd nofun hnot, fun _ => ⟨key, value, rfl, ?_, ?_⟩⟩
    · exact concatenates_singleton (haxis hkey) hkey.2
    · exact concatenates_singleton (haxis hvalue) hvalue.2
  | @content keys values done hne hkeys hvalues =>
    obtain ⟨first, rest, rfl⟩ := List.exists_cons_of_ne_nil hne
    -- all pairs agree with the first one, so it is enough to compare with that
    have hfitsKey := hkeys.fits_iff (p := first.1) List.mem_cons_self key
    have hfitsValue := hvalues.fits_iff (p := first.2) List.mem_cons_self value
    have haccepts : Accepts (first :: rest) key value ↔
        Fits positionAxis keys key ∧ Fits positionAxis values value := by
      simp [Accepts, hfitsKey, hfitsValue]
    rw [haccepts]
    constructor
    · intro hnot
      by_cases hkey' : Fits positionAxis keys key
      · -- The keys have been joined when the values turn out not to fit.
        obtain ⟨keys', hjoin, -⟩ := hkeys.join hkey' hkey.2
        obtain ⟨e, herror⟩ := Tensor.exists_error_of_not_fits fun hvalue' => hnot ⟨hkey', hvalue'⟩
        refine ⟨e, ?_⟩
        simp [LayerCache.append, hjoin, herror, bind, Except.bind]
      · obtain ⟨e, herror⟩ := Tensor.exists_error_of_not_fits hkey'
        refine ⟨e, ?_⟩
        simp [LayerCache.append, herror, bind, Except.bind]
    · rintro ⟨hkey', hvalue'⟩
      obtain ⟨keys', hjoin, hkeys'⟩ := hkeys.join hkey' hkey.2
      obtain ⟨values', hjoin', hvalues'⟩ := hvalues.join hvalue' hvalue.2
      refine ⟨keys', values', ?_, hkeys', hvalues'⟩
      simp [LayerCache.append, hjoin, hjoin', bind, Except.bind, pure, Except.pure]

/-- A call keeps the invariant, whether or not it takes effect. -/
theorem Holds.call {s : LayerCache × List Pair} {p : Pair} (h : Holds s.1 s.2) (hkey : IsBlock p.1)
    (hvalue : IsBlock p.2) : Holds (call s p).1 (call s p).2 := by
  obtain ⟨hrefused, htaken⟩ := h.append hkey hvalue
  unfold LayerCache.call
  by_cases haccepts : Accepts s.2 p.1 p.2
  · obtain ⟨keys, values, happend, hkeys, hvalues⟩ := htaken haccepts
    rw [happend]
    refine .content (by simp) ?_ ?_
    · simpa using hkeys
    · simpa using hvalues
  · obtain ⟨e, happend⟩ := hrefused haccepts
    rw [happend]
    exact h

theorem holds_appendAll (hcalls : ∀ p ∈ calls, IsBlock p.1 ∧ IsBlock p.2) :
    Holds (appendAll calls).1 (appendAll calls).2 := by
  have hrun {s : LayerCache × List Pair} (h : Holds s.1 s.2) :
      Holds (calls.foldl LayerCache.call s).1 (calls.foldl LayerCache.call s).2 := by
    induction calls generalizing s with
    | nil => exact h
    | cons p calls ih =>
      obtain ⟨hp, hcalls⟩ := List.forall_mem_cons.mp hcalls
      exact ih hcalls (h.call hp.1 hp.2)
  exact hrun .empty

/-- Behind any calls, of which some failed, the cache holds the keys and the values of those that succeeded, and is as
long as their keys. The next call succeeds exactly if its key and its value both fit the first ones. If it fails it
leaves the cache as it was; if it succeeds its result, which the cache holds then, are all the keys and all the values,
the new ones last. -/
theorem append_behind (hcalls : ∀ p ∈ calls, IsBlock p.1 ∧ IsBlock p.2) (hkey : IsBlock key)
    (hvalue : IsBlock value) :
    ((appendAll calls).2 = [] → (appendAll calls).1.content = none) ∧
      ((appendAll calls).2 ≠ [] → ∃ keys values, (appendAll calls).1.content = some (keys, values) ∧
        Concatenates positionAxis ((appendAll calls).2.map Prod.fst) keys ∧
        Concatenates positionAxis ((appendAll calls).2.map Prod.snd) values) ∧
      (appendAll calls).1.length? = some (((appendAll calls).2.map fun p => sizeAlong positionAxis p.1).sum) ∧
      (¬ Accepts (appendAll calls).2 key value →
        ∃ e, (appendAll calls).1.append key value = ((appendAll calls).1, .error e)) ∧
      (Accepts (appendAll calls).2 key value → ∃ keys values,
        (appendAll calls).1.append key value = (⟨some (keys, values)⟩, .ok (keys, values)) ∧
        Concatenates positionAxis ((appendAll calls).2.map Prod.fst ++ [key]) keys ∧
        Concatenates positionAxis ((appendAll calls).2.map Prod.snd ++ [value]) values) := by
  have h := holds_appendAll hcalls
  obtain ⟨hrefused, htaken⟩ := h.append hkey hvalue
  refine ⟨?_, ?_, h.length?, hrefused, htaken⟩
  -- The invariant tells an empty cache from one with content, which is all that is asked here.
  · intro hnil
    generalize appendAll calls = s at *
    obtain ⟨c, done⟩ := s
    cases h with
    | empty => rfl
    | content hne => exact absurd hnil hne
  · intro hne
    generalize appendAll calls = s at *
    obtain ⟨c, done⟩ := s
    cases h with
    | empty => exact absurd rfl hne
    | @content keys values _ _ hkeys hvalues => exact ⟨keys, values, rfl, hkeys, hvalues⟩

def narrowBlock : Tensor := ⟨.byte, [1, 1, 1, 1], [7]⟩

def wideBlock : Tensor := ⟨.byte, [1, 1, 1, 2], [8, 9]⟩

/-- Two calls, of which the second one has a value that does not fit although its key does, and a third one. -/
theorem append_behind_refused_value :
    (∀ p ∈ [(narrowBlock, narrowBlock), (narrowBlock, wideBlock)], IsBlock p.1 ∧ IsBlock p.2) ∧ IsBlock narrowBlock ∧
      (appendAll [(narrowBlock, narrowBlock), (narrowBlock, wideBlock)]).1.length? = some 1 ∧
      ∃ keys values,
        (appendAll [(narrowBlock, narrowBlock), (narrowBlock, wideBlock)]).1.append narrowBlock narrowBlock =
          (⟨some (keys, values)⟩, .ok (keys, values)) ∧
        Concatenates positionAxis [narrowBlock, narrowBlock] keys ∧
        Concatenates positionAxis [narrowBlock, narrowBlock] values := by
  have hblock : IsBlock narrowBlock := ⟨rfl, rfl⟩
  have hwide : IsBlock wideBlock := ⟨rfl, rfl⟩
  have hcalls : ∀ p ∈ [(narrowBlock, narrowBlock), (narrowBlock, wideBlock)], IsBlock p.1 ∧ IsBlock p.2 := by
    simp [hblock, hwide]
  have hdone : (appendAll [(narrowBlock, narrowBlock), (narrowBlock, wideBlock)]).2 =
      [(narrowBlock, narrowBlock)] := rfl
  obtain ⟨-, -, hlength, -, htaken⟩ := append_behind hcalls hblock hblock
  rw [hdone] at hlength htaken
  refine ⟨hcalls, hblock, hlength, htaken ?_⟩
  intro first hfirst
  cases hfirst
  exact ⟨by decide, by decide⟩

end LayerCache
end GuidedDecoding
