import GuidedDecoding.Engine
import GuidedDecoding.Proofs.Detokenizer.Leading
import GuidedDecoding.Proofs.Engine
import GuidedDecoding.Proofs.Json.Malformed
import GuidedDecoding.Proofs.Json.OffsetRepair
import GuidedDecoding.Proofs.KeyValueCache
import GuidedDecoding.Proofs.Matcher.Checked
import GuidedDecoding.Proofs.Matcher.Enclosed
import GuidedDecoding.Proofs.Matcher.Ending
import GuidedDecoding.Proofs.Matcher.History
import GuidedDecoding.Proofs.Matcher.Spent
import GuidedDecoding.Proofs.PartialReader
import GuidedDecoding.Proofs.Sampling.Candidates
import GuidedDecoding.Proofs.Session.Continuation
import GuidedDecoding.Proofs.Session.Feeding
import GuidedDecoding.Proofs.Session.Prefill
import GuidedDecoding.Proofs.Session.Shortened
import GuidedDecoding.Proofs.TokenMask.Edits
import GuidedDecoding.Proofs.Vocabulary.ByteFallback
import GuidedDecoding.Proofs.Vocabulary.ByteLevel
import GuidedDecoding.Proofs.Vocabulary.Index
import GuidedDecoding.Proofs.Vocabulary.Reconcile
import GuidedDecoding.Proofs.Vocabulary.Roles
