import GuidedDecoding.Proofs.LogitGate

/-!
# What a matcher remembers

Of the calls that were made, a matcher remembers those that took a token since it was started or reset. A reset
does not fail and makes it the new matcher again (`Bound.reset_eq`), so what came before can be forgotten; and a call
that asks for the mask, or offers a token that is rejected, leaves it as it is (`call_of_idle`), so any of these might
as well not have been made.

What can be seen is the answer to each call, and the mask, the end and the number of accepted tokens behind it
(`events`). A history with some calls left out is `select`ed by a flag for each call.
-/

namespace GuidedDecoding
namespace Matcher

variable {l : Lexicon} {c : Constraint} {m start : Matcher} {q : Call} {calls past later : List Call} {keep : List Bool}

structure View where
  permitted : TokenMask
  terminated : Bool
  accepted : Nat

def view (m : Matcher) : View := ⟨m.mask, m.terminated, m.accepted⟩

def callAll (m : Matcher) (calls : List Call) : Matcher := calls.foldl (fun m q => (m.call q).1) m

/-- The answer to each of some calls, with what can be seen behind it. -/
def events (m : Matcher) : List Call → List (Answer × View)
  | [] => []
  | q :: calls => ((m.call q).2, (m.call q).1.view) :: (m.call q).1.events calls

/-- The events of two histories are those of the first, and those of the second behind it. -/
theorem events_append (m : Matcher) (past later : List Call) :
    m.events (past ++ later) = m.events past ++ (m.callAll past).events later := by
  induction past generalizing m with
  | nil => rfl
  | cons q past ih =>
    rw [List.cons_append, events, ih, events, List.cons_append]
    rfl

/-! ### Starting over -/

/-- No calls lead to a matcher that cannot be reached. -/
theorem reachable_callAll (h : Reachable l c m) (calls : List Call) : Reachable l c (m.callAll calls) := by
  induction calls generalizing m with
  | nil => exact h
  | cons q calls ih => exact ih (.call q h)

/-- What is seen of a reset and behind it does not depend on what came before. -/
theorem events_reset (hstart : Matcher.start l c = .ok start) (past later : List Call) :
    start.events (past ++ .reset :: later) = start.events past ++ (.done, start.view) :: start.events later := by
  have hreset : (start.callAll past).call .reset = (start, .done) :=
    (reachable_callAll (.start hstart) past).bound.call_reset hstart
  rw [events_append, events, hreset]

/-! ### Leaving calls out -/

/-- The call asks for the mask, or it offers a token that is rejected. -/
def Idle (m : Matcher) : Call → Prop
  | .accept id => (m.accept id).2 = .rejected
  | .reset => False
  | .mask => True
  | .fill _ => True

/-- An idle call leaves the matcher as it is. -/
theorem call_of_idle (h : m.Idle q) : (m.call q).1 = m := by
  cases q with
  | accept id => exact accept_of_rejected h
  | reset => exact h.elim
  | mask => rfl
  | fill buffer => rfl

/-- The entries of a list at the places that are flagged. -/
def select {α : Type} : List Bool → List α → List α
  | true :: keep, x :: xs => x :: select keep xs
  | false :: keep, _ :: xs => select keep xs
  | _, _ => []

/-- Each call that is not flagged is idle where it is made. -/
def KeepsBusy (m : Matcher) (keep : List Bool) (calls : List Call) : Prop :=
  ∀ (i : Nat) (q : Call), keep[i]? = some false → calls[i]? = some q → (m.callAll (calls.take i)).Idle q

theorem KeepsBusy.tail {kept : Bool} (h : m.KeepsBusy (kept :: keep) (q :: calls)) :
    (m.call q).1.KeepsBusy keep calls := fun i q' hkeep hcall => h (i + 1) q' hkeep hcall

/-- Without some idle calls all others have the same answers, the same is seen behind each of them, and the matcher
at the end is the same. -/
theorem select_events (hlength : keep.length = calls.length) (h : m.KeepsBusy keep calls) :
    m.events (select keep calls) = select keep (m.events calls) ∧
      m.callAll (select keep calls) = m.callAll calls := by
  induction calls generalizing m keep with
  | nil =>
    obtain rfl := List.length_eq_zero_iff.mp hlength
    exact ⟨rfl, rfl⟩
  | cons q calls ih =>
    obtain ⟨kept, keep, rfl⟩ := List.exists_cons_of_length_eq_add_one hlength
    obtain ⟨hevents, hmatcher⟩ := ih (Nat.succ_injective hlength) h.tail
    cases kept with
    | true =>
      rw [select, events, events, select, hevents]
      exact ⟨rfl, hmatcher⟩
    | false =>
      have hsame : (m.call q).1 = m := call_of_idle (h 0 q rfl rfl)
      rw [hsame] at hevents hmatcher
      rw [select, events, select, hsame]
      refine ⟨hevents, hmatcher.trans ?_⟩
      show m.callAll calls = (m.call q).1.callAll calls
      rw [hsame]

/-- Two histories of a new matcher cannot be told apart from a reset on, whatever they were before it; and any calls
that asked for the mask, or offered a token that was rejected, could have been left out without another answer to
any other call, or another mask, end or number of accepted tokens behind it. -/
theorem events_of_history (hstart : Matcher.start l c = .ok m) :
    (∀ past later, m.events (past ++ .reset :: later) = m.events past ++ (.done, m.view) :: m.events later) ∧
      ∀ (calls : List Call) (keep : List Bool), keep.length = calls.length →
        (∀ (i : Nat) (q : Call), keep[i]? = some false → calls[i]? = some q → (m.callAll (calls.take i)).Idle q) →
        m.events (select keep calls) = select keep (m.events calls) :=
  ⟨events_reset hstart, fun _ _ hlength hidle => (select_events hlength hidle).1⟩

theorem start_abMatcher :
    Matcher.start LogitGate.letters (.pattern LogitGate.abPattern) = .ok LogitGate.abMatcher := by
  cbv

theorem abMatcher_rejects_b : (LogitGate.abMatcher.accept 1).2 = .rejected := by
  cbv

/-- Before `ab` begins, `b` is rejected: offering it and looking at the mask make no difference to the `a` that
follows, nor does an `a` before a reset to the one behind it. -/
theorem events_of_history_ab :
    Matcher.start LogitGate.letters (.pattern LogitGate.abPattern) = .ok LogitGate.abMatcher ∧
      LogitGate.abMatcher.events [.accept 0, .reset, .accept 0] =
        LogitGate.abMatcher.events [.accept 0] ++
          (.done, LogitGate.abMatcher.view) :: LogitGate.abMatcher.events [.accept 0] ∧
      (LogitGate.abMatcher.accept 1).2 = .rejected ∧
      LogitGate.abMatcher.events [.accept 0] =
        select [false, false, true] (LogitGate.abMatcher.events [.accept 1, .mask, .accept 0]) := by
  refine ⟨start_abMatcher, (events_of_history start_abMatcher).1 [.accept 0] [.accept 0], abMatcher_rejects_b, ?_⟩
  apply (events_of_history start_abMatcher).2 [.accept 1, .mask, .accept 0] [false, false, true] rfl
  intro i q hkeep hcall
  match i, hkeep, hcall with
  | 0, _, hcall =>
    cases hcall
    exact abMatcher_rejects_b
  | 1, _, hcall =>
    cases hcall
    trivial
  | 2, hkeep, _ => cases hkeep
  | i + 3, hkeep, _ => cases hkeep

end Matcher
end GuidedDecoding
