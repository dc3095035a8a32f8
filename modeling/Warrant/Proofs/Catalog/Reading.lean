import Warrant.Catalog.Any
import Warrant.Proofs.Call

/-!
# Reading leaves a catalog as it is

No type of catalogs notes that it was read: neither reading the whole nor asking about one
capability changes the catalog, whether the call answers or fails. To be asked about a capability is
nothing that a catalog records either (`CatalogStore.AnswersSilently`).
-/

namespace Warrant

/-- Reading a catalog leaves it as it is. -/
class CatalogStore.ReadsPurely (κ : Type) [CatalogStore κ] : Prop where
  load : Call.Keeps id (CatalogStore.load : Call κ (Failure StoreError) TextSet)
  contains : ∀ capability,
    Call.Keeps id (CatalogStore.contains capability : Call κ (Failure StoreError) Bool)

open CatalogStore (ReadsPurely)

instance : ReadsPurely MemoryCatalog where
  load := Call.keeps_read _
  contains _ := Call.keeps_read _

instance : ReadsPurely FileCatalog where
  load _ := rfl
  contains _ := Call.Keeps.bind (fun _ => rfl) fun _ => Call.keeps_pure _

theorem AnyCatalog.keeps_either {α : Type} {inMemory : Call MemoryCatalog (Failure StoreError) α}
    {inFile : Call FileCatalog (Failure StoreError) α} (hmemory : Call.Keeps id inMemory)
    (hfile : Call.Keeps id inFile) : Call.Keeps id (either inMemory inFile) := by
  intro c
  cases c with
  | memory c beside => exact congrArg (memory · beside) (hmemory c)
  | file c => exact congrArg file (hfile c)

instance : ReadsPurely AnyCatalog where
  load := AnyCatalog.keeps_either ReadsPurely.load ReadsPurely.load
  contains capability :=
    AnyCatalog.keeps_either (ReadsPurely.contains capability) (ReadsPurely.contains capability)

namespace FaultyCatalog

variable {κ α : Type} {c : Call κ (Failure StoreError) α}

theorem keeps_guarded (call : CatalogCall) (h : Call.Keeps id c) :
    Call.Keeps id (guarded call c) := by
  intro k
  unfold guarded
  split
  · rfl
  · exact congrArg (FaultyCatalog.mk k.faults) (h k.inner)

instance [CatalogStore κ] [ReadsPurely κ] : ReadsPurely (FaultyCatalog κ) where
  load := keeps_guarded .load ReadsPurely.load
  contains capability := keeps_guarded .contains (ReadsPurely.contains capability)

end FaultyCatalog

/-! ### Events -/

/-- Asking a catalog about a capability emits nothing. -/
class CatalogStore.AnswersSilently (κ : Type) [CatalogStore κ] : Prop where
  contains : ∀ (capability : String) (k : κ), (CatalogStore.contains capability k).events = []

open CatalogStore (AnswersSilently)

instance : AnswersSilently MemoryCatalog where
  contains _ _ := rfl

instance : AnswersSilently FileCatalog where
  contains capability c := by
    show ((FileCatalog.load >>= fun s => pure (decide (capability ∈ s))) c).events = []
    rw [Call.bind_apply]
    unfold FileCatalog.load
    cases FileCatalog.entriesAt c.files c.path with
    | ok s => rfl
    | error reason => rfl

instance : AnswersSilently AnyCatalog where
  contains capability c := by
    cases c with
    | memory c beside => rfl
    | file c => exact AnswersSilently.contains capability c

instance {κ : Type} [CatalogStore κ] [AnswersSilently κ] : AnswersSilently (FaultyCatalog κ) where
  contains capability k := by
    show (FaultyCatalog.guarded .contains (CatalogStore.contains capability) k).events = []
    unfold FaultyCatalog.guarded
    split
    · rfl
    · exact AnswersSilently.contains capability k.inner

end Warrant
