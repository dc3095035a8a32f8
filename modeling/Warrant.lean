import Warrant.Access
import Warrant.Call
import Warrant.Capability
import Warrant.Catalog
import Warrant.Catalog.Any
import Warrant.Catalog.Document
import Warrant.Catalog.File
import Warrant.CommandLine.Arguments
import Warrant.CommandLine.Help
import Warrant.CommandLine.Run
import Warrant.Config
import Warrant.Config.Reader
import Warrant.Delta
import Warrant.Engine
import Warrant.Engine.Request
import Warrant.Event
import Warrant.Files.Fault
import Warrant.Files.Path
import Warrant.Files.Tree
import Warrant.GrantStore
import Warrant.Json.Escape
import Warrant.Json.Forms
import Warrant.Json.Reader
import Warrant.Json.Value
import Warrant.Json.Writer
import Warrant.Main
import Warrant.Principal
import Warrant.Proofs.Access.Maximum
import Warrant.Proofs.Access.Resolution
import Warrant.Proofs.Access.Transition
import Warrant.Proofs.Call
import Warrant.Proofs.Capability.Classification
import Warrant.Proofs.Capability.Construction
import Warrant.Proofs.Capability.Grammar
import Warrant.Proofs.Catalog.Batch
import Warrant.Proofs.Catalog.Beside
import Warrant.Proofs.Catalog.Document
import Warrant.Proofs.Catalog.Failure
import Warrant.Proofs.Catalog.File
import Warrant.Proofs.Catalog.Format
import Warrant.Proofs.Catalog.Law
import Warrant.Proofs.Catalog.Reading
import Warrant.Proofs.CommandLine.Agreement
import Warrant.Proofs.Config.Acceptance
import Warrant.Proofs.Config.Declaration
import Warrant.Proofs.Config.FirstViolation
import Warrant.Proofs.Config.Rejection
import Warrant.Proofs.Config.Soundness
import Warrant.Proofs.Config.Violations
import Warrant.Proofs.Delta.Faults
import Warrant.Proofs.Delta.Outstanding
import Warrant.Proofs.Engine.Administration
import Warrant.Proofs.Engine.Authorization
import Warrant.Proofs.Engine.Convergence
import Warrant.Proofs.Engine.Decomposition
import Warrant.Proofs.Engine.Failure
import Warrant.Proofs.Engine.FileBacked
import Warrant.Proofs.Engine.Interleaving
import Warrant.Proofs.Engine.Isolation
import Warrant.Proofs.Engine.Provenance
import Warrant.Proofs.Engine.Refinement
import Warrant.Proofs.Engine.Replacement
import Warrant.Proofs.Engine.Request
import Warrant.Proofs.Engine.Serialization
import Warrant.Proofs.Engine.Synchronization
import Warrant.Proofs.Engine.Trail
import Warrant.Proofs.Except
import Warrant.Proofs.Files.Entries
import Warrant.Proofs.Files.Links
import Warrant.Proofs.Files.Path
import Warrant.Proofs.Files.Tree
import Warrant.Proofs.Files.Walk
import Warrant.Proofs.GrantStore.Building
import Warrant.Proofs.GrantStore.Change
import Warrant.Proofs.GrantStore.Ledger
import Warrant.Proofs.GrantStore.MergedRead
import Warrant.Proofs.GrantStore.Table
import Warrant.Proofs.Json.Forms
import Warrant.Proofs.Json.Strings
import Warrant.Proofs.Json.Texts
import Warrant.Proofs.Json.Values
import Warrant.Proofs.Registry.Derivable
import Warrant.Proofs.Registry.Grouped
import Warrant.Proofs.Registry.Legal
import Warrant.Proofs.Tier
import Warrant.Proofs.Toml.Sections
import Warrant.Registry
import Warrant.Text.Hexadecimal
import Warrant.Text.Printable
import Warrant.Text.Quoted
import Warrant.TextSet
import Warrant.Tier
import Warrant.Toml.Number
import Warrant.Toml.Reader
import Warrant.Toml.Table
import Warrant.Toml.Text
import Warrant.Toml.Value
