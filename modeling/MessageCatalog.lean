import MessageCatalog.Artifact.Store
import MessageCatalog.Config
import MessageCatalog.Proofs.KeyList
import MessageCatalog.Literal.Position
import MessageCatalog.Proofs.LogOutput
import MessageCatalog.Reconciliation.Artifacts
import MessageCatalog.Reference
import MessageCatalog.Proofs.Literal.Cursor
import MessageCatalog.Proofs.Literal.Balance
import MessageCatalog.Proofs.Literal.Scan
import MessageCatalog.Proofs.Literal.Flatten
import MessageCatalog.Proofs.Literal.Names
import MessageCatalog.Proofs.Table
import MessageCatalog.Proofs.Literal.Render
import MessageCatalog.Proofs.Artifact.KeySet
import MessageCatalog.Proofs.Data
import MessageCatalog.Proofs.Document
import MessageCatalog.Proofs.Extraction.ValidKeys
import MessageCatalog.Proofs.Reconciliation.Artifacts
import MessageCatalog.Proofs.GroupTable
import MessageCatalog.Proofs.Reference
import MessageCatalog.Proofs.Reconciliation.Exact
import MessageCatalog.Proofs.Reconciliation.Untranslatable
import MessageCatalog.Proofs.Literal.Listing
import MessageCatalog.Proofs.Extraction.Descriptors
import MessageCatalog.Proofs.Literal.Suffix
import MessageCatalog.Proofs.Extraction.Anchor
import MessageCatalog.Proofs.Extraction.Nodes
import MessageCatalog.Proofs.Extraction.Regions
import MessageCatalog.Proofs.Extraction.InlineCalls
import MessageCatalog.Proofs.Extraction.Gathered
import MessageCatalog.Proofs.Artifact.Store
import MessageCatalog.Proofs.Artifact.Formats
import MessageCatalog.Proofs.Config
import MessageCatalog.Proofs.Literal.Strings
import MessageCatalog.Proofs.Settings.Precedence
import MessageCatalog.Proofs.Diagnostics
import MessageCatalog.Proofs.Literal.Zeroed
import MessageCatalog.Proofs.Literal.Templates
import MessageCatalog.Proofs.Literal.Located
import MessageCatalog.Proofs.Literal.Paths
import MessageCatalog.Proofs.Literal.Depth
import MessageCatalog.Proofs.Literal.Nested
import MessageCatalog.Proofs.Literal.Sums
import MessageCatalog.Proofs.Artifact.Comments
import MessageCatalog.Proofs.Reconciliation.Collisions
import MessageCatalog.Proofs.Diagnostics.Records
import MessageCatalog.Proofs.Literal.Spellings
import MessageCatalog.Proofs.Extraction.Handed
import MessageCatalog.Proofs.TypeScript.Pieces
import MessageCatalog.Proofs.Literal.Surrogates
import MessageCatalog.Proofs.Extraction.Sourced
import MessageCatalog.Proofs.Saved
import MessageCatalog.Proofs.Plugin
import MessageCatalog.Proofs.Key.Segments
import MessageCatalog.Proofs.Literal.Dots
import MessageCatalog.Proofs.Literal.Progress
