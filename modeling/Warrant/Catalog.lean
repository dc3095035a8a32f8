import Warrant.Call
import Warrant.Delta

/-!
# Catalogs

A catalog keeps the capabilities that are legal at present. It is read as a whole and changed by
two kinds of batch. `CatalogStore` says what a type of catalogs has to offer; the first such type is
a set held in memory, the second wraps another catalog so that chosen calls fail.
-/

namespace Warrant

/-- Why a store gave no answer. -/
structure StoreError where
  /-- The kind of store. -/
  backend : String
  detail : String
deriving DecidableEq, Repr

def StoreError.message (e : StoreError) : String := e.backend ++ " store error: " ++ e.detail

/-- A call ends without an answer by an error that it reports, or by breaking off. -/
inductive Failure (ε : Type) where
  | error (e : ε)
  | brokenOff
deriving DecidableEq, Repr

namespace Failure

def map {ε ε' : Type} (f : ε → ε') : Failure ε → Failure ε'
  | error e => error (f e)
  | brokenOff => brokenOff

end Failure

/-- Answers the error that a call reports instead of failing. A call that breaks off breaks off the
whole. -/
def Call.reported {σ ε ε' α : Type} (c : Call σ (Failure ε) α) :
    Call σ (Failure ε') (Except ε α) := fun s =>
  let out := c s
  match out.answer with
  | .ok a => ⟨.ok (.ok a), out.state, out.events⟩
  | .error (.error e) => ⟨.ok (.error e), out.state, out.events⟩
  | .error .brokenOff => ⟨.error .brokenOff, out.state, out.events⟩

/-- The calls on a catalog of type `κ`. -/
class CatalogStore (κ : Type) where
  /-- Reads the whole catalog. -/
  load : Call κ (Failure StoreError) TextSet
  /-- Adds a batch; what is there already does no harm. -/
  addAll : TextSet → Call κ (Failure StoreError) Unit
  /-- Removes a batch; what is absent does no harm. -/
  removeAll : TextSet → Call κ (Failure StoreError) Unit
  /-- Whether the catalog lists a capability. -/
  contains : String → Call κ (Failure StoreError) Bool :=
    fun capability => do return capability ∈ (← load)

/-! ### Carrying out a difference -/

namespace Delta

variable {κ : Type} [CatalogStore κ]

/-- Says beforehand what is going to be removed. -/
def announce (d : Delta) : Call κ (Failure StoreError) Unit :=
  if d.isLossy then Call.emit [.removalPlanned d.toRemove.size d.toAdd.size d.toRemove]
  else pure ()

/-- Adds what is missing; without any, the catalog is not called. -/
def addBatch (d : Delta) : Call κ (Failure StoreError) Unit :=
  if d.toAdd.isEmpty then pure ()
  else do
    CatalogStore.addAll d.toAdd
    Call.emit [.batchAdded d.toAdd.size]

def removeBatch (d : Delta) : Call κ (Failure StoreError) Unit :=
  if d.toRemove.isEmpty then pure ()
  else do
    CatalogStore.removeAll d.toRemove
    Call.emit [.batchRemoved d.toRemove.size]

/-- Carries out a difference on a catalog: first the additions, then the removals. -/
def apply (d : Delta) : Call κ (Failure StoreError) Unit := do
  announce d
  addBatch d
  removeBatch d

end Delta

/-! ### In memory -/

/-- A catalog held in memory; no call on it fails. -/
structure MemoryCatalog where
  entries : TextSet
deriving DecidableEq, Repr

instance : CatalogStore MemoryCatalog where
  load := Call.read MemoryCatalog.entries
  addAll batch := Call.change fun c => ((), ⟨c.entries ∪ batch⟩)
  removeAll batch := Call.change fun c => ((), ⟨c.entries \ batch⟩)
  contains capability := Call.read fun c => capability ∈ c.entries

/-! ### With faults -/

inductive CatalogCall where
  | load
  | add
  | remove
  | contains
deriving DecidableEq, Repr

def CatalogCall.name : CatalogCall → String
  | load => "load"
  | add => "add"
  | remove => "remove"
  | contains => "contains"

structure Fault where
  call : CatalogCall
  /-- Whether the call breaks off instead of reporting an error. -/
  breaksOff : Bool
deriving DecidableEq, Repr

/-- A catalog on which the calls of `faults` fail before doing anything. -/
structure FaultyCatalog (κ : Type) where
  faults : List Fault
  inner : κ

namespace FaultyCatalog

variable {κ α : Type}

def backend : String := "flaky"

/-- How a call fails under some faults, if it does; breaking off comes before an error. -/
def failure? (faults : List Fault) (call : CatalogCall) : Option (Failure StoreError) :=
  if ⟨call, true⟩ ∈ faults then some .brokenOff
  else if ⟨call, false⟩ ∈ faults then some (.error ⟨backend, call.name ++ " failed"⟩)
  else none

/-- Fails if a fault is on, and otherwise does what the catalog inside does. -/
def guarded (call : CatalogCall) (c : Call κ (Failure StoreError) α) :
    Call (FaultyCatalog κ) (Failure StoreError) α := fun k =>
  match failure? k.faults call with
  | some failure => ⟨.error failure, k, []⟩
  | none => c.onPart inner (fun k i => { k with inner := i }) id k

instance [CatalogStore κ] : CatalogStore (FaultyCatalog κ) where
  load := guarded .load CatalogStore.load
  addAll batch := guarded .add (CatalogStore.addAll batch)
  removeAll batch := guarded .remove (CatalogStore.removeAll batch)
  contains capability := guarded .contains (CatalogStore.contains capability)

end FaultyCatalog

end Warrant
