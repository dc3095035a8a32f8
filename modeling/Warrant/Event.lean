import Warrant.Tier
import Warrant.Text.Quoted

/-!
# Events

What the library records while it works. An event is a value that says what happened; its level,
its message and its fields are read off it.
-/

namespace Warrant

inductive Level where
  | debug
  | info
  | warn
deriving DecidableEq, Repr

namespace Level

def name : Level → String
  | debug => "debug"
  | info => "info"
  | warn => "warn"

end Level

inductive FieldValue where
  | text (value : String)
  | count (value : Nat)
  | flag (value : Bool)
deriving DecidableEq, Repr

/-- Something that happened. -/
inductive Event where
  | operationSkipped (entity action : String) (reason : GrammarError)
  | grantsIgnored (principal : Principal) (ignored : TextSet)
  | accessResolved (principal : Principal) (entity action : String) (tier : Tier)
  | assigned (principal : Principal) (capability : String)
  | revoked (principal : Principal) (capability : String)
  | replaced (principal : Principal) (count : Nat)
  | removalPlanned (removed added : Nat) (capabilities : TextSet)
  | batchAdded (count : Nat)
  | batchRemoved (count : Nat)
  | synchronized (added removed : Nat) (dryRun : Bool)
  | catalogWritten (path : String) (entries : Nat)
  | temporaryLeft (path : String) (reason : String)
deriving DecidableEq, Repr

namespace Event

def level : Event → Level
  | operationSkipped .. | grantsIgnored .. | removalPlanned .. | temporaryLeft .. => .warn
  | assigned .. | revoked .. | replaced .. | synchronized .. => .info
  | accessResolved .. | batchAdded .. | batchRemoved .. | catalogWritten .. => .debug

def message : Event → String
  | operationSkipped .. => "registry: skipping entry that cannot form a capability"
  | grantsIgnored .. => "engine: ignoring grants that are malformed or not in the catalog"
  | accessResolved .. => "engine: access resolved"
  | assigned .. => "engine: capability assigned"
  | revoked .. => "engine: capability revoked"
  | replaced .. => "engine: grants replaced"
  | removalPlanned .. => "reconcile: removing capabilities from catalog; grants on them lose effect"
  | batchAdded .. => "reconcile: add batch applied"
  | batchRemoved .. => "reconcile: remove batch applied"
  | synchronized .. => "engine: permission catalog synchronized"
  | catalogWritten .. => "catalog_store: written"
  | temporaryLeft .. => "catalog_store: failed to remove temp file"

def fields : Event → List (String × FieldValue)
  | operationSkipped entity action reason =>
    [("entity", .text entity), ("action", .text action), ("error", .text reason.message)]
  | grantsIgnored principal ignored =>
    [("principal", .text principal.describe), ("ignored", .text ignored.quoted)]
  | accessResolved principal entity action tier =>
    [("principal", .text principal.describe), ("entity", .text entity), ("action", .text action),
      ("tier", .text tier.name)]
  | assigned principal capability =>
    [("principal", .text principal.describe), ("capability", .text capability)]
  | revoked principal capability =>
    [("principal", .text principal.describe), ("capability", .text capability)]
  | replaced principal count =>
    [("principal", .text principal.describe), ("count", .count count)]
  | removalPlanned removed added capabilities =>
    [("removed", .count removed), ("added", .count added),
      ("capabilities", .text capabilities.quoted)]
  | batchAdded count => [("count", .count count)]
  | batchRemoved count => [("count", .count count)]
  | synchronized added removed dryRun =>
    [("added", .count added), ("removed", .count removed), ("dry_run", .flag dryRun)]
  | catalogWritten path entries => [("path", .text path), ("entries", .count entries)]
  | temporaryLeft path reason => [("path", .text path), ("error", .text reason)]

end Event

end Warrant
