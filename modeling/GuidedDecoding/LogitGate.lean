import GuidedDecoding.Matcher
import GuidedDecoding.Tensor

/-!
# Gates for scores

A gate stands between a model and a sampler. It lets the scores of permitted tokens pass and sets all others
to negative infinity, and it holds the sampler to that: a token that is not permitted ends the session.
-/

namespace GuidedDecoding

/-- A matcher and the mask of its last use. -/
structure LogitGate where
  matcher : Matcher
  mask : TokenMask

namespace LogitGate

def ofMatcher (m : Matcher) : LogitGate := { matcher := m, mask := .none m.lexicon.size }

/-- Masks the scores of one position; they must be a row of singles, and one of them must be of a permitted
token. -/
def apply (g : LogitGate) (scores : Tensor) : LogitGate × Except Failure (List Float32) :=
  let mask := g.matcher.fill g.mask
  let result : Except Failure (List Float32) := match scores.dims with
    | [width] =>
      if !mask.toList.any fun id => id.toNat < width then .error .nothingPermitted
      else
        match scores with
        | ⟨.single, _, xs⟩ => .ok (mask.apply xs)
        | _ => .error (.tensor .kind)
    | _ => .error (.tensor .rank)
  ({ g with mask }, result)

def accept (g : LogitGate) (id : TokenId) : LogitGate × Except Failure Verdict :=
  match g.matcher.accept id with
  | (m, .rejected) => ({ g with matcher := m }, .error (.tokenNotPermitted id))
  | (m, verdict) => ({ g with matcher := m }, .ok verdict)

/-- The gate of an empty text again; if the matcher fails to start over, only the mask is cleared. -/
def reset (g : LogitGate) : LogitGate × Except Failure Unit :=
  let g := { g with mask := g.mask.setAll false }
  match g.matcher.reset with
  | .ok m => ({ g with matcher := m }, .ok ())
  | .error e => (g, .error e)

end LogitGate

end GuidedDecoding
