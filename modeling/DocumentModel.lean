import DocumentModel.Document.Edit
import DocumentModel.Mutation
import DocumentModel.Query.Basic
import DocumentModel.Query.Result
import DocumentModel.Value.Conversion
import DocumentModel.Proofs.Calendar.Reading
import DocumentModel.Proofs.Calendar.RoundTrip
import DocumentModel.Proofs.Outcome
import DocumentModel.Proofs.Text.Base64
import DocumentModel.Proofs.Wire.RoundTrip
import DocumentModel.Proofs.Document.Atomicity
import DocumentModel.Proofs.Text.Trim
import DocumentModel.Proofs.FieldPath.RoundTrip
import DocumentModel.Proofs.FieldPath.Grammar
import DocumentModel.Proofs.Mutation.Bucket
import DocumentModel.Proofs.Mutation.Tables
import DocumentModel.Proofs.Condition.Forest
import DocumentModel.Proofs.Condition.TopLevel
import DocumentModel.Proofs.Condition.Builder
import DocumentModel.Proofs.Merge.Overlay
import DocumentModel.Proofs.Document.Slot
import DocumentModel.Proofs.Document.Change
import DocumentModel.Proofs.Document.Frame
import DocumentModel.Proofs.Document.Commute
import DocumentModel.Proofs.Document.Branch
import DocumentModel.Proofs.Wire.Decoded
import DocumentModel.Proofs.Query.Filters
import DocumentModel.Proofs.Condition.Lifecycle
import DocumentModel.Proofs.Document.Removal
import DocumentModel.Proofs.Document.Reached
import DocumentModel.Proofs.Query.Clauses
import DocumentModel.Proofs.Document.Readers
import DocumentModel.Proofs.Document.Obstacles
import DocumentModel.Proofs.Merge.Paths
import DocumentModel.Proofs.Merge.Growth
import DocumentModel.Proofs.Merge.Alike
import DocumentModel.Proofs.Query.Responses
import DocumentModel.Proofs.Condition.Levels
import DocumentModel.Proofs.Condition.Nesting
import DocumentModel.Proofs.Condition.Fields
import DocumentModel.Proofs.Wire.Encodings
import DocumentModel.Proofs.Mutation.Records
import DocumentModel.Proofs.Mutation.Sending
import DocumentModel.Proofs.Query.Sending
import DocumentModel.Proofs.Wire.Longs
import DocumentModel.Proofs.Wire.Untagged
import DocumentModel.Proofs.Query.Pages
import DocumentModel.Proofs.Document.Lengths
import DocumentModel.Proofs.Document.Undo
import DocumentModel.Proofs.Document.Spelling
import DocumentModel.Proofs.Document.Identity
import DocumentModel.Proofs.Wire.Equality
