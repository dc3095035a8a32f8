import Warrant.Catalog.File

/-!
# Catalogs of either kind

A catalog whose kind is chosen when the program runs: in memory, with files that have nothing to do
with it, or in a file.
-/

namespace Warrant

/-- A catalog in memory beside some files, or in one of them. -/
inductive AnyCatalog where
  | memory (catalog : MemoryCatalog) (beside : Files.Tree)
  | file (catalog : FileCatalog)

namespace AnyCatalog

def files : AnyCatalog → Files.Tree
  | memory _ beside => beside
  | file c => c.files

def withFiles (files : Files.Tree) : AnyCatalog → AnyCatalog
  | memory c _ => memory c files
  | file c => file { c with files }

def either {α : Type} (inMemory : Call MemoryCatalog (Failure StoreError) α)
    (inFile : Call FileCatalog (Failure StoreError) α) :
    Call AnyCatalog (Failure StoreError) α
  | memory c beside =>
    let out := inMemory c
    ⟨out.answer, memory out.state beside, out.events⟩
  | file c =>
    let out := inFile c
    ⟨out.answer, file out.state, out.events⟩

instance : CatalogStore AnyCatalog where
  load := either CatalogStore.load CatalogStore.load
  addAll batch := either (CatalogStore.addAll batch) (CatalogStore.addAll batch)
  removeAll batch := either (CatalogStore.removeAll batch) (CatalogStore.removeAll batch)
  contains capability :=
    either (CatalogStore.contains capability) (CatalogStore.contains capability)

end AnyCatalog

end Warrant
