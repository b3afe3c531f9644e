import SchemaCatalog.Main
import SchemaCatalog.Proofs.Arena
import SchemaCatalog.Proofs.Walk.Route
import SchemaCatalog.Proofs.Walk.Follow
import SchemaCatalog.Proofs.Registry.Filing
import SchemaCatalog.Proofs.Registry.Merge
import SchemaCatalog.Proofs.Session.Adding
import SchemaCatalog.Proofs.Session.Built
import SchemaCatalog.Proofs.Walk.ExactlyOnce
import SchemaCatalog.Proofs.Reference.Attempts
import SchemaCatalog.Proofs.Reference.Strictness
import SchemaCatalog.Proofs.Session.LastWins
import SchemaCatalog.Proofs.Fragment.Layout
import SchemaCatalog.Proofs.Fragment.Linking
import SchemaCatalog.Proofs.Session.Assembly
import SchemaCatalog.Proofs.Reference.Outcome
import SchemaCatalog.Proofs.Walk.Coverage
import SchemaCatalog.Proofs.Reference.Exactness
import SchemaCatalog.Proofs.Walk.Retry
import SchemaCatalog.Proofs.Fragment.Outcome
import SchemaCatalog.Proofs.Fragment.Directory
import SchemaCatalog.Proofs.Session.Soundness
import SchemaCatalog.Proofs.Session.Interleaving
import SchemaCatalog.Proofs.Walk.History
import SchemaCatalog.Proofs.Session.Severity
import SchemaCatalog.Proofs.Reference.Suppression
import SchemaCatalog.Proofs.Registry.Ledger
import SchemaCatalog.Proofs.Session.Redefinition
import SchemaCatalog.Proofs.Walk.Tally
import SchemaCatalog.Proofs.Session.Integrity
import SchemaCatalog.Proofs.Session.Repetition
import SchemaCatalog.Proofs.Json.Delimited
import SchemaCatalog.Proofs.Fragment.Hashing
import SchemaCatalog.Proofs.Fragment.Relocation
import SchemaCatalog.Proofs.Reference.Monotonicity
import SchemaCatalog.Proofs.Registry.Algebra
import SchemaCatalog.Proofs.Walk.Recursion
import SchemaCatalog.Proofs.Walk.Turns
import SchemaCatalog.Proofs.Text.Lower
import SchemaCatalog.Proofs.Text.Words
import SchemaCatalog.Proofs.Text.Lossy
import SchemaCatalog.Proofs.Files.Writing
import SchemaCatalog.Proofs.Files.Below
import SchemaCatalog.Proofs.Toml.Quoted
import SchemaCatalog.Proofs.Toml.Lines
import SchemaCatalog.Proofs.Settings.Layering
import SchemaCatalog.Proofs.Settings.Environment
import SchemaCatalog.Proofs.Settings.RoundTrip
import SchemaCatalog.Proofs.Session.Atomicity
import SchemaCatalog.Proofs.Registry.Report
import SchemaCatalog.Proofs.Graph.Search
import SchemaCatalog.Proofs.Graph.Agreement
import SchemaCatalog.Proofs.Graph.Closure
import SchemaCatalog.Proofs.Graph.Groups
import SchemaCatalog.Proofs.Session.Prefixes
import SchemaCatalog.Proofs.Fragment.TargetSpace
import SchemaCatalog.Proofs.Graph.DotReader
import SchemaCatalog.Proofs.Graph.DotLabel
import SchemaCatalog.Proofs.Graph.Dot
import SchemaCatalog.Proofs.Table
import SchemaCatalog.Proofs.Renumbering.Arena
import SchemaCatalog.Proofs.Renumbering.Loading
import SchemaCatalog.Proofs.Renumbering.Registry
import SchemaCatalog.Proofs.Renumbering.Walk
import SchemaCatalog.Proofs.Renumbering.Reference
import SchemaCatalog.Proofs.Renumbering.Session
import SchemaCatalog.Proofs.Session.Interposed
import SchemaCatalog.Proofs.Json.Written
import SchemaCatalog.Proofs.Encoding.RoundTrip
import SchemaCatalog.Proofs.Toml.Entries
import SchemaCatalog.Proofs.Toml.Distinct
import SchemaCatalog.Proofs.Settings.Paths
import SchemaCatalog.Proofs.Settings.Keys
import SchemaCatalog.Proofs.Settings.Reading
import SchemaCatalog.Proofs.Settings.Precedence
