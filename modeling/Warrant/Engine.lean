import Warrant.Registry
import Warrant.GrantStore
import Warrant.Catalog

/-!
# The permission engine

The engine puts a grant store and a catalog together. It resolves requests, administers grants, and
synchronises the catalog with a registry; a guard keeps two synchronisations from overlapping.
-/

namespace Warrant

/-- Why the engine gave no answer. -/
inductive EngineError where
  | malformed (reason : GrammarError)
  | unknownCapability (capability : String)
  | accessDenied (principal : Principal) (entity action : String)
  | store (reason : StoreError)
  | syncInProgress
deriving DecidableEq, Repr

def EngineError.message : EngineError → String
  | malformed reason => "malformed capability: " ++ reason.message
  | unknownCapability capability =>
    "unknown capability '" ++ capability ++ "': not present in the permission catalog"
  | accessDenied principal entity action =>
    "access denied: " ++ principal.describe ++ " cannot perform '" ++ action ++ "' on '" ++
      entity ++ "'"
  | store reason => reason.message
  | syncInProgress => "permission synchronization already in progress"

/-- What keeps synchronisations apart. A run that breaks off poisons the guard, which hinders no
later run. -/
structure Guard where
  held : Bool
  poisoned : Bool
deriving DecidableEq, Repr

namespace Guard

def free : Guard := ⟨false, false⟩

def tryTake? (g : Guard) : Option Guard := if g.held then none else some { g with held := true }

def release (g : Guard) (brokenOff : Bool) : Guard := ⟨false, g.poisoned || brokenOff⟩

end Guard

/-- Grants, a catalog, and the guard of synchronisations. -/
structure Engine (κ : Type) where
  grants : GrantStore
  catalog : κ
  guard : Guard

namespace Engine

abbrev Op (κ α : Type) : Type := Call (Engine κ) (Failure EngineError) α

variable {κ α : Type}

def new (grants : GrantStore) (catalog : κ) : Engine κ := ⟨grants, catalog, .free⟩

def onCatalog (c : Call κ (Failure StoreError) α) : Op κ α :=
  c.onPart catalog (fun e k => { e with catalog := k }) (Failure.map .store)

def changeGrants (f : GrantStore → α × GrantStore) : Op κ α :=
  Call.change fun e => ((f e.grants).1, { e with grants := (f e.grants).2 })

def refuse (e : EngineError) : Op κ α := Call.fail (.error e)

def parse (capability : String) : Op κ Capability :=
  match Capability.parse capability with
  | .ok c => pure c
  | .error reason => refuse (.malformed reason)

variable [CatalogStore κ]

/-! ### Requests -/

/-- The tier of a request: only grants that the catalog lists count. -/
def resolveAccess (p : Principal) (entity action : String) : Op κ Tier := do
  let grants ← Call.read fun e => e.grants.grants p
  let catalog ← onCatalog CatalogStore.load
  let (effective, ignored) := Access.partition grants catalog
  if !ignored.isEmpty then
    Call.emit [.grantsIgnored p ignored]
  let tier := Access.resolve effective.toList entity action
  Call.emit [.accessResolved p entity action tier]
  return tier

/-- The scope of a permitted request. -/
def authorize (p : Principal) (entity action : String) : Op κ Scope := do
  let tier ← resolveAccess p entity action
  match tier.scopeFor? p with
  | some scope => return scope
  | none => refuse (.accessDenied p entity action)

/-! ### Administration of grants -/

/-- Gives a grant that the catalog lists; answers whether it is new. -/
def assign (p : Principal) (capability : String) : Op κ Bool := do
  let parsed ← parse capability
  let known ← onCatalog (CatalogStore.contains capability)
  if !known then
    refuse (.unknownCapability capability)
  let added ← changeGrants fun g => g.assign p parsed
  if added then
    Call.emit [.assigned p parsed.render]
  return added

/-- Takes back a grant, well formed or not; answers whether it was there. -/
def revoke (p : Principal) (capability : String) : Op κ Bool := do
  let removed ← changeGrants fun g => g.revoke p capability
  if removed then
    Call.emit [.revoked p capability]
  return removed

/-- Accepts a grant against a catalog that was read before. -/
def accept (catalog : TextSet) (capability : String) : Except EngineError Capability :=
  match Capability.parse capability with
  | .error reason => .error (.malformed reason)
  | .ok c => if capability ∈ catalog then .ok c else .error (.unknownCapability capability)

/-- Replaces the direct grants of a principal; one that is refused refuses all. -/
def replace (p : Principal) (capabilities : List String) : Op κ Unit := do
  let catalog ← onCatalog CatalogStore.load
  match capabilities.mapM (accept catalog) with
  | .error e => refuse e
  | .ok accepted =>
    changeGrants fun g => ((), g.replace p accepted)
    Call.emit [.replaced p accepted.length]

/-! ### Synchronisation -/

/-- The events of the operations that a registry passes over. -/
def skipEvents (r : Registry) : List Event :=
  r.defects.map fun d => .operationSkipped d.1.entity d.1.action d.2

/-- What the catalog, read now, lacks and has in excess. -/
def difference (r : Registry) : Op κ Delta := do
  let catalog ← onCatalog CatalogStore.load
  return Delta.reconcile r.legal catalog

/-- What a synchronisation would change at present. -/
def planSync (r : Registry) : Op κ Delta := do
  Call.emit (skipEvents r)
  difference r

/-- Reads the catalog and, unless the run is dry, changes it. -/
def carryOut (r : Registry) (dryRun : Bool) : Op κ Report := do
  let delta ← difference r
  if !dryRun then
    onCatalog delta.apply
  Call.emit [.synchronized delta.toAdd.size delta.toRemove.size dryRun]
  return ⟨delta.toAdd, delta.toRemove, dryRun⟩

def brokeOff {ε : Type} : Except (Failure ε) α → Bool
  | .error .brokenOff => true
  | _ => false

def enter : Op κ Unit := fun e =>
  match e.guard.tryTake? with
  | none => ⟨.error (.error .syncInProgress), e, []⟩
  | some g => ⟨.ok (), { e with guard := g }, []⟩

/-- Carries out a call and gives the guard back, however the call ends. -/
def leaving (c : Op κ α) : Op κ α := fun e =>
  let out := c e
  { out with state :=
    { out.state with guard := out.state.guard.release (brokeOff out.answer) } }

/-- A synchronisation, or its dry run. The legal set is derived before the catalog is read. -/
def runSync (r : Registry) (dryRun : Bool) : Op κ Report := do
  enter
  leaving do
    Call.emit (skipEvents r)
    carryOut r dryRun

def synchronize (r : Registry) : Op κ Report := runSync r false

def previewSync (r : Registry) : Op κ Report := runSync r true

/-- A synchronisation that is held where it reads the catalog, while another call is made on the
engine; the answers of the other call and of the synchronisation, or the errors that they report. -/
def synchronizeAround {β : Type} (r : Registry) (meanwhile : Op κ β) :
    Op κ (Except EngineError β × Except EngineError Report) := do
  enter
  leaving do
    Call.emit (skipEvents r)
    let inner ← meanwhile.reported
    let outer ← (carryOut r false).reported
    return (inner, outer)

end Engine

end Warrant
