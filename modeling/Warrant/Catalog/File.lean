import Warrant.Catalog
import Warrant.Catalog.Document
import Warrant.Files.Tree

/-!
# Catalogs in files

A file catalog is a path in a tree of files. A missing file reads as the empty catalog. A batch
writes the changed catalog to a temporary file beside the path and then moves it there, so that a
batch that fails leaves the old file in place; it takes the temporary file away again.
-/

namespace Warrant

/-- A catalog kept at a path. -/
structure FileCatalog where
  path : String
  files : Files.Tree

namespace FileCatalog

/-- What goes wrong with a file catalog. -/
inductive Trouble where
  | reading (reason : Files.Fault)
  /-- The file holds no array of strings. -/
  | parsing
  | creating (reason : Files.Fault)
  | writing (reason : Files.Fault)
  | replacing (reason : Files.Fault)
deriving DecidableEq, Repr

def backend : String := "file"

def Trouble.message (path : String) : Trouble → String
  | reading reason => "failed to read " ++ path ++ ": " ++ reason.message
  | parsing => "failed to parse " ++ path ++ ": no array of strings"
  | creating reason => "failed to create temp for " ++ path ++ ": " ++ reason.message
  | writing reason => "failed to write temp for " ++ path ++ ": " ++ reason.message
  | replacing reason => "failed to replace " ++ path ++ ": " ++ reason.message

def temporary (path : String) : String := path ++ ".tmp"

/-- What the file at a path holds; a missing one holds nothing. -/
def entriesAt (files : Files.Tree) (path : String) : Except Trouble TextSet :=
  match files.read path with
  | .error .noEntry => .ok ∅
  | .error reason => .error (.reading reason)
  | .ok content =>
    match Catalog.Document.ofBytes? content with
    | some entries => .ok entries
    | none => .error .parsing

/-- Takes the temporary file away after a failure. -/
def abandon {α : Type} (path : String) (reason : Trouble) : Call Files.Tree Trouble α :=
  fun files =>
    match files.remove (temporary path) with
    | .ok files => ⟨.error reason, files, []⟩
    | .error e => ⟨.error reason, files, [.temporaryLeft (temporary path) e.message]⟩

/-- Writes a catalog to a path by way of the temporary file. -/
def writeAt (path : String) (entries : TextSet) : Call Files.Tree Trouble Unit := fun files =>
  match files.create (temporary path) with
  | .error reason => ⟨.error (.creating reason), files, []⟩
  | .ok (location, opened) =>
    match opened.store location (Catalog.Document.encode entries).toUTF8 with
    | .error reason => abandon path (.writing reason) opened
    | .ok stored =>
      match stored.rename (temporary path) path with
      | .error reason => abandon path (.replacing reason) stored
      | .ok replaced => ⟨.ok (), replaced, [.catalogWritten path entries.size]⟩

/-- Reads a catalog, changes it and writes it back. -/
def updateAt (path : String) (f : TextSet → TextSet) : Call Files.Tree Trouble Unit := fun files =>
  match entriesAt files path with
  | .error reason => ⟨.error reason, files, []⟩
  | .ok entries => writeAt path (f entries) files

def failure (path : String) (reason : Trouble) : Failure StoreError :=
  .error ⟨backend, reason.message path⟩

def load : Call FileCatalog (Failure StoreError) TextSet := fun c =>
  ⟨(entriesAt c.files c.path).mapError (failure c.path), c, []⟩

def change (f : TextSet → TextSet) : Call FileCatalog (Failure StoreError) Unit := fun c =>
  let out := updateAt c.path f c.files
  ⟨out.answer.mapError (failure c.path), { c with files := out.state }, out.events⟩

instance : CatalogStore FileCatalog where
  load := load
  addAll batch := change (· ∪ batch)
  removeAll batch := change (· \ batch)

end FileCatalog

end Warrant
