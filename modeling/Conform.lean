import Conform.Error.Reader
import Conform.LogBook
import Conform.Main
import Conform.Registry.Builder
import Conform.Registry.Summary
import Conform.Schedule
import Conform.Proofs.Building
import Conform.Proofs.Calls
import Conform.Proofs.Conformance
import Conform.Proofs.Contributions
import Conform.Proofs.DateForms
import Conform.Proofs.DebugLog
import Conform.Proofs.Documents
import Conform.Proofs.EpochMillis
import Conform.Proofs.ErrorDocuments
import Conform.Proofs.Exactness
import Conform.Proofs.ExitCodes
import Conform.Proofs.Extension
import Conform.Proofs.FirstMatch
import Conform.Proofs.FixedPoint
import Conform.Proofs.Grammar
import Conform.Proofs.Idempotence
import Conform.Proofs.Indifference
import Conform.Proofs.Interleaving
import Conform.Proofs.NumberText
import Conform.Proofs.Presence
import Conform.Proofs.Relaxation
import Conform.Proofs.Rereading
import Conform.Proofs.RoundTrip
import Conform.Proofs.ScalarText
import Conform.Proofs.Scopes
import Conform.Proofs.Stopping
