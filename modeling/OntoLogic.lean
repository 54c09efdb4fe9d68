import OntoLogic.Engine.Memory
import OntoLogic.Engine.Unreliable
import OntoLogic.Generation.Script
import OntoLogic.Manager
import OntoLogic.Proofs.Resolution.Completeness
import OntoLogic.Proofs.Session.Consistency
import OntoLogic.Proofs.Session.Query
import OntoLogic.Session.Graph
import OntoLogic.Settings.Decode
import OntoLogic.Proofs.Resolution.Exactness
import OntoLogic.Proofs.Session.Failure
import OntoLogic.Proofs.Substitution.Mgu
import OntoLogic.Proofs.Syntax.Grammar
import OntoLogic.Proofs.Syntax.Derivation
import OntoLogic.Proofs.Syntax.Scanning
import OntoLogic.Proofs.Syntax.Written
import OntoLogic.Proofs.Syntax.Spelling
import OntoLogic.Proofs.Syntax.RoundTrip
import OntoLogic.Proofs.Session.Reload
import OntoLogic.Proofs.Session.Effect
import OntoLogic.Proofs.Session.History
import OntoLogic.Proofs.Json.Indented
import OntoLogic.Proofs.Text.Names
import OntoLogic.Proofs.Session.Snapshot
import OntoLogic.Proofs.Ontology.Predicates
import OntoLogic.Proofs.Session.Assertion
import OntoLogic.Proofs.Translation.Attempts
import OntoLogic.Proofs.Translation.Kind
import OntoLogic.Proofs.Session.Reasoning
import OntoLogic.Proofs.Translation.Deadline
import OntoLogic.Generation.Cancellation
import OntoLogic.Proofs.Session.Cancelled
import OntoLogic.Proofs.Manager.Requests
import OntoLogic.Proofs.Manager.Shutdown
import OntoLogic.Proofs.Manager.Usage
import OntoLogic.Proofs.Resolution.Inferences
import OntoLogic.Proofs.Resolution.Prefix
import OntoLogic.Proofs.Syntax.Closing
import OntoLogic.Proofs.Syntax.Neck
import OntoLogic.Proofs.Session.RuleText
import OntoLogic.Proofs.Resolution.Lockstep
import OntoLogic.Proofs.Resolution.Renaming
import OntoLogic.Proofs.Resolution.Scan
import OntoLogic.Proofs.Resolution.Stored
import OntoLogic.Proofs.Session.Retraction
import OntoLogic.Proofs.Session.Addition
import OntoLogic.Proofs.Ontology.Growth
import OntoLogic.Proofs.Session.Vocabulary
import OntoLogic.Proofs.Json.Compact
import OntoLogic.Proofs.Session.Graph
import OntoLogic.Proofs.Syntax.Numbering
import OntoLogic.Proofs.Syntax.Composition
import OntoLogic.Proofs.Translation.Structured
import OntoLogic.Proofs.Translation.Prose
import OntoLogic.Proofs.Syntax.Height
import OntoLogic.Proofs.Syntax.Placement
import OntoLogic.Proofs.Syntax.Insertion
import OntoLogic.Proofs.Translation.Numerals
import OntoLogic.Proofs.Translation.Numeric
import OntoLogic.Proofs.Syntax.Culprit
import OntoLogic.Proofs.Substitution.Acyclic
import OntoLogic.Proofs.Resolution.Termination
import OntoLogic.Proofs.Resolution.Apart
