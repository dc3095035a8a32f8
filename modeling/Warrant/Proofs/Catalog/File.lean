import Warrant.Catalog.File
import Warrant.Proofs.Catalog.Document
import Warrant.Proofs.Catalog.Law
import Warrant.Proofs.Files.Walk

/-!
# Catalogs in files hold sets

`FileCatalog.Keeps` says that a catalog in a file holds a set and can be written: no links are in
its way, the path and the temporary path lead to files or to free places (`Sites`). A batch is then
a set operation (`change_of_keeps`), and reading leaves everything as it is (`load_of_keeps`). So
`law` says of such a catalog what a law says of any, and that it never fails. A batch takes the
temporary file away, unless that is the catalog's own under a second name (`Clears`).
-/

namespace Warrant.FileCatalog

open Files Files.Tree

variable {path : String} {files : Tree} {s entries : TextSet} {c : FileCatalog}

/-- A place where a file is, or where one may be made. -/
def TakesFile (node : Option Node) : Prop := node = none ∨ ∃ content, node = some (.file content)

/-- The catalog holds a set in its file, or the empty set in none, and nothing hinders a batch. -/
structure Keeps (path : String) (files : Tree) (s : TextSet) : Prop where
  unlinked : files.Unlinked
  catalog : ∃ l, files.find .content path = .ok ⟨l, none⟩ ∧ s = ∅ ∨
    ∃ content, files.find .content path = .ok ⟨l, some (.file content)⟩ ∧
      Catalog.Document.ofBytes? content = some s
  temporary : ∃ l node, files.find .creation (temporary path) = .ok ⟨l, node⟩ ∧ TakesFile node

def NoTemporary (path : String) (files : Tree) : Prop :=
  ∃ l, files.find .entry (temporary path) = .ok ⟨l, none⟩

/-- The temporary path is a second name of the file that the path leads to. -/
def TwoNames (path : String) (files : Tree) : Prop :=
  ∃ l m content, files.find .content path = .ok ⟨l, some (.file content)⟩ ∧
    files.find .entry (temporary path) = .ok ⟨m, some (.file content)⟩ ∧ files.SameFile m l

/-- What a batch leaves at the temporary path: the second name of the catalog, or else nothing. -/
structure Clears (path : String) (files files' : Tree) : Prop where
  gone : ¬ TwoNames path files → NoTemporary path files'
  stays : TwoNames path files → TwoNames path files'

theorem NoTemporary.not_twoNames (h : NoTemporary path files) : ¬ TwoNames path files := by
  obtain ⟨l, hnone⟩ := h
  rintro ⟨_, _, _, -, hsome, -⟩
  cases hnone.symm.trans hsome

/-- What stays true of the files when a batch is made. -/
def KeptByBatch (path : String) (P : Tree → Prop) : Prop :=
  ∀ files files', P files → Clears path files files' → P files'

theorem keptByBatch_noTemporary : KeptByBatch path (NoTemporary path) :=
  fun _ _ h hclears => hclears.gone h.not_twoNames

theorem keptByBatch_twoNames : KeptByBatch path (TwoNames path) := fun _ _ h hclears =>
  hclears.stays h

/-- The files are as they were at some time, or have no temporary file. Either way that is no
second name of the catalog. -/
structure SameOrCleared (path : String) (start files : Tree) : Prop where
  one : ¬ TwoNames path files
  files : files = start ∨ NoTemporary path files

theorem keptByBatch_sameOrCleared (start : Tree) : KeptByBatch path (SameOrCleared path start) :=
  fun _ _ h hclears => ⟨(hclears.gone h.one).not_twoNames, .inr (hclears.gone h.one)⟩

theorem TakesFile.ne_directory {node : Option Node} (h : TakesFile node) :
    node ≠ some .directory := by
  rintro rfl
  rcases h with h | ⟨_, h⟩
  · cases h
  · cases h

theorem TakesFile.ne_link {node : Option Node} (h : TakesFile node) (target : String) :
    node ≠ some (.link target) := by
  rintro rfl
  rcases h with h | ⟨_, h⟩
  · cases h
  · cases h

/-! ### Where the files are -/

/-- The path and the temporary path stand for locations where files are or may be made. -/
structure Sites (path : String) (files : Tree) (l m : Location) : Prop where
  checked : Path.check path = .ok ()
  catalog : files.Locates path l
  catalog_takes : TakesFile (files.node? l)
  checked_temporary : Path.check (FileCatalog.temporary path) = .ok ()
  temporary : files.Locates (FileCatalog.temporary path) m
  temporary_takes : TakesFile (files.node? m)

theorem Keeps.exists_sites (h : Keeps path files s) : ∃ l m, Sites path files l m := by
  obtain ⟨m, node', hfind', hnode'⟩ := h.temporary
  obtain ⟨hcheck', hm, rfl⟩ := locates_of_find h.unlinked hfind' hnode'.ne_directory
  obtain ⟨l, node, hfind, hnode⟩ : ∃ l node, files.find .content path = .ok ⟨l, node⟩ ∧
      TakesFile node := by
    obtain ⟨l, ⟨hfind, -⟩ | ⟨content, hfind, -⟩⟩ := h.catalog
    · exact ⟨l, none, hfind, .inl rfl⟩
    · exact ⟨l, _, hfind, .inr ⟨content, rfl⟩⟩
  obtain ⟨hcheck, hl, rfl⟩ := locates_of_find h.unlinked hfind hnode.ne_directory
  exact ⟨l, m, hcheck, hl, hnode, hcheck', hm, hnode'⟩

namespace Sites

variable {l m : Location} {u : Tree} {content : ByteArray}

theorem ne (h : Sites path files l m) : m ≠ l :=
  h.catalog.ne_of_suffix h.temporary (by decide) (by decide)

theorem find (h : Sites path files l m) (aim : Aim) :
    files.find aim path = .ok ⟨l, files.node? l⟩ :=
  find_of_locates aim h.checked h.catalog h.catalog_takes.ne_directory h.catalog_takes.ne_link

theorem find_temporary (h : Sites path files l m) (aim : Aim) :
    files.find aim (FileCatalog.temporary path) = .ok ⟨m, files.node? m⟩ :=
  find_of_locates aim h.checked_temporary h.temporary h.temporary_takes.ne_directory
    h.temporary_takes.ne_link

theorem twoNames_iff (h : Sites path files l m) : TwoNames path files ↔ files.SameFile m l := by
  constructor
  · rintro ⟨l', m', content, hfind, hfind', hsame⟩
    obtain ⟨rfl, -⟩ := place_unique (h.find .content) hfind
    obtain ⟨rfl, -⟩ := place_unique (h.find_temporary .entry) hfind'
    exact hsame
  · intro hsame
    obtain hnone | ⟨content, hm⟩ := h.temporary_takes
    · exact absurd hnone (hsame.node?_ne_none h.ne)
    have hl : files.node? l = some (.file content) := hsame.node?_eq.symm.trans hm
    exact ⟨l, m, content, hl ▸ h.find .content, hm ▸ h.find_temporary .entry, hsame⟩

theorem mono (h : Sites path files l m) (hdirs : u.HasDirectories files)
    (hhome : u.home = files.home) (hl : TakesFile (u.node? l)) (hm : TakesFile (u.node? m)) :
    Sites path u l m :=
  ⟨h.checked, h.catalog.mono hdirs hhome, hl, h.checked_temporary, h.temporary.mono hdirs hhome, hm⟩

theorem filled (h : Sites path files l m) (hu : files.Filled u m content) : Sites path u l m := by
  refine h.mono (hasDirectories_of_differs fun d hd => ?_) hu.home ?_ (.inr ⟨_, hu.content_self⟩)
  · rw [← (hu.differs hd).node?_eq]
    exact h.temporary_takes.ne_directory
  · by_cases hsame : files.SameFile m l
    · exact .inr ⟨_, hu.content l hsame⟩
    · rw [hu.others l hsame]
      exact h.catalog_takes

theorem move (h : Sites path files l m) : Sites path (files.move m l) l m := by
  refine h.mono (hasDirectories_of_differs fun d hd => ?_) home_move ?_ ?_
  · obtain rfl | rfl := eq_of_move_differs hd
    · exact h.temporary_takes.ne_directory
    · exact h.catalog_takes.ne_directory
  · rw [node?_move_target h.temporary.ne_nil h.catalog.ne_nil]
    exact h.temporary_takes
  · by_cases hsame : files.SameFile m l
    · rw [move_of_sameFile hsame]
      exact h.temporary_takes
    · exact .inl (node?_move_source h.temporary.ne_nil hsame)

end Sites

/-! ### Reading -/

theorem entriesAt_of_keeps (h : Keeps path files s) : entriesAt files path = .ok s := by
  obtain ⟨l, ⟨hfind, rfl⟩ | ⟨content, hfind, hcontent⟩⟩ := h.catalog
  · have hread : files.read path = .error .noEntry := by
      rw [Tree.read, hfind]
      rfl
    rw [entriesAt, hread]
  · have hread : files.read path = .ok content := by
      rw [Tree.read, hfind]
      rfl
    rw [entriesAt, hread]
    dsimp only
    rw [hcontent]

theorem Keeps.unique {t : TextSet} (h : Keeps path files s) (h' : Keeps path files t) : s = t :=
  Except.ok.inj ((entriesAt_of_keeps h).symm.trans (entriesAt_of_keeps h'))

theorem load_of_keeps (h : Keeps c.path c.files s) : load c = ⟨.ok s, c, []⟩ := by
  rw [load, entriesAt_of_keeps h]
  rfl

/-! ### Writing -/

theorem exists_filled_of_create {l : Location} {node : Option Node}
    (hfind : files.find .creation path = .ok ⟨l, node⟩) (hnode : TakesFile node)
    (hl : files.node? l = node) :
    ∃ opened, files.create path = .ok (l, opened) ∧ files.Filled opened l .empty := by
  have hnil : l ≠ [] := by
    rintro rfl
    exact hnode.ne_directory hl.symm
  rw [create, hfind]
  rcases hnode with rfl | ⟨content, rfl⟩
  · exact ⟨_, rfl, filled_put hnil ((node?_eq_none_iff hnil).1 hl)⟩
  · exact ⟨_, rfl, filled_fill (number?_ne_none hl nofun)⟩

theorem store_of_filled {opened : Tree} {l : Location} {old : ByteArray} (content : ByteArray)
    (h : files.Filled opened l old) : opened.store l content = .ok (opened.fill l content) := by
  rw [store, h.content_self]

theorem rename_of_finds {source target : String} {l m : Location} {n : Node} {node : Option Node}
    (hsource : files.find .entry source = .ok ⟨m, some n⟩)
    (htarget : files.find .entry target = .ok ⟨l, node⟩) (hdir : node ≠ some .directory) :
    files.rename source target = .ok (files.move m l) := by
  rw [rename, hsource]
  show (files.find .entry target >>= _) = _
  rw [htarget]
  dsimp only [bind, Except.bind]
  split
  · exact absurd rfl hdir
  · rfl

/-- The temporary file is filled and moved to the catalog. -/
theorem Sites.exists_filled {l m : Location} (h : Sites path files l m) (entries : TextSet) :
    ∃ stored, files.Filled stored m (Catalog.Document.encode entries).toUTF8 ∧
      writeAt path entries files =
        ⟨.ok (), stored.move m l, [.catalogWritten path entries.size]⟩ := by
  obtain ⟨opened, hcreate, hopened⟩ :=
    exists_filled_of_create (h.find_temporary .creation) h.temporary_takes rfl
  generalize hbytes : (Catalog.Document.encode entries).toUTF8 = bytes
  have hstored : files.Filled (opened.fill m bytes) m bytes := hopened.fill
  have hsites := h.filled hstored
  have hsource := hsites.find_temporary .entry
  rw [hstored.content_self] at hsource
  have hrename := rename_of_finds hsource (hsites.find .entry) hsites.catalog_takes.ne_directory
  refine ⟨_, hstored, ?_⟩
  rw [writeAt, hcreate]
  dsimp only
  rw [hbytes, store_of_filled bytes hopened]
  dsimp only
  rw [hrename]

theorem Sites.unlinked_move {l m : Location} {stored : Tree} {content : ByteArray}
    (h : Sites path stored l m) (hfilled : files.Filled stored m content)
    (hlinks : files.Unlinked) : (stored.move m l).Unlinked := by
  have hstored : stored.Unlinked := hlinks.of_differs fun d hd target => by
    rw [hfilled.content d (hfilled.differs hd)]
    nofun
  refine hstored.of_differs fun d hd => ?_
  obtain rfl | rfl := eq_of_move_differs hd
  · exact h.move.temporary_takes.ne_link
  · exact h.move.catalog_takes.ne_link

/-- A batch is written, and the temporary file is gone unless it is the catalog's own. -/
theorem writeAt_of_keeps (entries : TextSet) (h : Keeps path files s) :
    ∃ files' events, writeAt path entries files = ⟨.ok (), files', events⟩ ∧
      Keeps path files' entries ∧ Clears path files files' := by
  obtain ⟨l, m, hsites⟩ := h.exists_sites
  obtain ⟨stored, hfilled, hwrite⟩ := hsites.exists_filled entries
  have hstored := hsites.filled hfilled
  have hmoved := hstored.move
  have hcatalog : (stored.move m l).node? l =
      some (.file (Catalog.Document.encode entries).toUTF8) := by
    rw [node?_move_target hsites.temporary.ne_nil hsites.catalog.ne_nil, hfilled.content_self]
  have hfind := hmoved.find .content
  rw [hcatalog] at hfind
  refine ⟨_, _, hwrite, ⟨hstored.unlinked_move hfilled h.unlinked,
    ⟨l, .inr ⟨_, hfind, Catalog.Document.ofBytes?_encode entries⟩⟩,
    m, _, hmoved.find_temporary .creation, hmoved.temporary_takes⟩, ?_, ?_⟩
  · intro hnot
    have hother : ¬ stored.SameFile m l := by rwa [hfilled.sameFile, ← hsites.twoNames_iff]
    have hentry := hmoved.find_temporary .entry
    rw [node?_move_source hsites.temporary.ne_nil hother] at hentry
    exact ⟨m, hentry⟩
  · intro htwo
    have hsame : stored.SameFile m l := by rwa [hfilled.sameFile, ← hsites.twoNames_iff]
    rw [move_of_sameFile hsame, hstored.twoNames_iff]
    exact hsame

theorem change_of_keeps (f : TextSet → TextSet) (h : Keeps c.path c.files s) :
    ∃ files' events, change f c = ⟨.ok (), { c with files := files' }, events⟩ ∧
      Keeps c.path files' (f s) ∧ Clears c.path c.files files' := by
  obtain ⟨files', events, hwrite, hkeeps, hclears⟩ := writeAt_of_keeps (f s) h
  refine ⟨files', events, ?_, hkeeps, hclears⟩
  rw [change, updateAt, entriesAt_of_keeps h]
  dsimp only
  rw [hwrite]
  rfl

/-! ### The law -/

variable {P : Files.Tree → Prop}

theorem load_ends (h : Keeps c.path c.files s) {err : Failure StoreError → FileCatalog → Prop} :
    load.Ends c (fun t c' => t = s ∧ c' = c) err := by
  unfold Call.Ends
  rw [load_of_keeps h]
  exact ⟨rfl, rfl⟩

theorem change_ends (f : TextSet → TextSet) (h : Keeps c.path c.files s)
    {err : Failure StoreError → FileCatalog → Prop} :
    (change f).Ends c (fun _ c' => c'.path = c.path ∧ Keeps c.path c'.files (f s) ∧
      Clears c.path c.files c'.files) err := by
  obtain ⟨files', events, hchange, hkeeps, hclears⟩ := change_of_keeps f h
  unfold Call.Ends
  rw [hchange]
  exact ⟨rfl, hkeeps, hclears⟩

/-- A catalog at a path that can be written never fails. About its files more may be said that a
batch keeps. -/
def law (path : String) (P : Files.Tree → Prop) (hP : KeptByBatch path P) :
    CatalogLaw FileCatalog where
  Holds c s := c.path = path ∧ Keeps path c.files s ∧ P c.files
  Failed _ _ := False
  load := by
    rintro c s ⟨rfl, hkeeps, hfiles⟩
    refine (load_ends hkeeps).mono ?_ fun _ _ => id
    rintro t _ ⟨rfl, rfl⟩
    exact ⟨rfl, rfl, hkeeps, hfiles⟩
  addAll batch := by
    rintro ⟨rfl, hkeeps, hfiles⟩
    refine (change_ends (· ∪ batch) hkeeps).mono ?_ fun _ _ => id
    exact fun _ c' ⟨hpath, hkeeps', hclears⟩ => ⟨hpath, hkeeps', hP _ _ hfiles hclears⟩
  removeAll batch := by
    rintro ⟨rfl, hkeeps, hfiles⟩
    refine (change_ends (· \ batch) hkeeps).mono ?_ fun _ _ => id
    exact fun _ c' ⟨hpath, hkeeps', hclears⟩ => ⟨hpath, hkeeps', hP _ _ hfiles hclears⟩
  contains capability := by
    rintro ⟨rfl, hkeeps, hfiles⟩
    refine Call.Ends.bind (load_ends hkeeps) ?_
    rintro t _ ⟨rfl, rfl⟩
    exact ⟨rfl, rfl, hkeeps, hfiles⟩

end Warrant.FileCatalog
