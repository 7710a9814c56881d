import ResultLint.Builder
import ResultLint.Config.Reader
import ResultLint.Document.Diagnostic
import ResultLint.Document.Program
import ResultLint.Linter
import ResultLint.Proofs.Constraints
import ResultLint.Proofs.Containment
import ResultLint.Proofs.Dispatch
import ResultLint.Proofs.Leaves
import ResultLint.Proofs.Reachability
import ResultLint.Proofs.Reports
import ResultLint.Proofs.ResultTypes
import ResultLint.Proofs.Selection
import ResultLint.Proofs.Traversal
import ResultLint.Proofs.Unfolding
import ResultLint.Proofs.Validity
import ResultLint.Proofs.Violations
import ResultLint.Proofs.Access.Types
import ResultLint.Proofs.Access.Rules
import ResultLint.Proofs.Access.Run
import ResultLint.Proofs.Anchors
import ResultLint.Proofs.Locality
import ResultLint.Proofs.Repetition
import ResultLint.Proofs.Json.Legible
import ResultLint.Proofs.Json.Bounded
import ResultLint.Proofs.Document.Records
import ResultLint.Proofs.Document.Tree
import ResultLint.Proofs.Document.RoundTrip
import ResultLint.Proofs.Translation.Types
import ResultLint.Proofs.Translation.Nodes
import ResultLint.Proofs.Alike.Types
import ResultLint.Proofs.Alike.Verdicts
import ResultLint.Proofs.Alike.Runs
import ResultLint.Proofs.Alike.Methods
import ResultLint.Proofs.Decoration
import ResultLint.Proofs.Generics
import ResultLint.Proofs.UnionOrder
import ResultLint.Proofs.Confinement
import ResultLint.Proofs.Separation
import ResultLint.Proofs.Translation.Programs
import ResultLint.Proofs.Renumbering
import ResultLint.Proofs.Dangling
import ResultLint.Proofs.Building
import ResultLint.Proofs.Document.Parts
import ResultLint.Proofs.Document.Edits
import ResultLint.Proofs.Conditions
import ResultLint.Proofs.Offers
import ResultLint.Proofs.Arguments
import ResultLint.Proofs.Discards
import ResultLint.Proofs.Positions
import ResultLint.Proofs.Growth
import ResultLint.Proofs.Recognition
import ResultLint.Proofs.Renaming
import ResultLint.Proofs.ConstraintRounds
import ResultLint.Proofs.Openings
import ResultLint.Proofs.Display.Phrases
import ResultLint.Proofs.Display.Forms
