import VaultSearch.Bytes.Base64
import VaultSearch.Bytes.Sha256
import VaultSearch.CommandLine.Session
import VaultSearch.Main
import VaultSearch.Proofs.Engine.Batch
import VaultSearch.Proofs.Filtering.DayRange
import VaultSearch.Proofs.Filtering.Inline
import VaultSearch.Proofs.Index.Refinement
import VaultSearch.Proofs.Lock.Fairness
import VaultSearch.Proofs.Lock.Waking
import VaultSearch.Proofs.Narrowing
import VaultSearch.Proofs.Query.Detection
import VaultSearch.Proofs.Query.Grammar
import VaultSearch.Proofs.Query.Rendering
import VaultSearch.Proofs.Query.Polarity
import VaultSearch.Proofs.Query.Explanation
import VaultSearch.Proofs.Search.Independence
import VaultSearch.Proofs.Search.Conjunction
import VaultSearch.Proofs.Search.LetterCase
import VaultSearch.Proofs.Search.Phrase
import VaultSearch.Proofs.Saved.Effects
import VaultSearch.Proofs.Saved.Running
import VaultSearch.Proofs.Saved.Transfer
import VaultSearch.Proofs.Vault.Convergence
import VaultSearch.Proofs.Vault.LostUpdate
import VaultSearch.Server
import VaultSearch.Proofs.Vault.Report
import VaultSearch.Proofs.Note.Frontmatter
import VaultSearch.Proofs.Vault.Blocking
import VaultSearch.Proofs.Fuzzy.Distance
import VaultSearch.Proofs.Note.Span
import VaultSearch.Proofs.Vault.FileDates
import VaultSearch.Proofs.Saved.Malformed
import VaultSearch.Proofs.Engine.Strict
import VaultSearch.Proofs.Filtering.SingleDay
import VaultSearch.Proofs.Filtering.Written
import VaultSearch.Proofs.Fuzzy.Highlight
import VaultSearch.Proofs.Search.QuickTerms
import VaultSearch.Proofs.Search.QuickMarks
import VaultSearch.Proofs.Search.Narrower
import VaultSearch.Proofs.Search.Suggestions
import VaultSearch.Proofs.Search.BuiltParts
import VaultSearch.Proofs.Search.BuiltFilters
import VaultSearch.Proofs.Engine.Listings
import VaultSearch.Proofs.Vault.Idempotence
import VaultSearch.Proofs.Saved.Atomic
import VaultSearch.Proofs.Saved.Recent
import VaultSearch.Proofs.Note.Fence
import VaultSearch.Proofs.Fuzzy.Similarity
import VaultSearch.Proofs.Note.Title
