import Warrant.Proofs.Catalog.File

/-!
# A batch leaves other files alone

In a tree without links a batch changes the entry of the catalog and the file at the temporary path
under all its names, and nothing else (`Sites.change`). So whatever else a path leads to is there
after any number of batches (`SameBut.find`), and a law of the catalog says so (`Keeps.exists_law`).
-/

namespace Warrant

namespace Files.Tree

variable {t t' u : Tree} {l m d : Location} {node : Option Node} {path : String} {aim : Aim}
  {content : ByteArray}

/-- The trees have the same entries, but for one location and the names of the file at another. -/
structure SameBut (l m : Location) (t t' : Tree) : Prop where
  home : t'.home = t.home
  node? : ∀ d, d ≠ l → ¬ t.SameFile m d → t'.node? d = t.node? d
  /-- The file has no name that it had not. -/
  names : ∀ d, t'.SameFile m d → t.SameFile m d

namespace SameBut

theorem refl (l m : Location) (t : Tree) : SameBut l m t t := ⟨rfl, fun _ _ _ => rfl, fun _ => id⟩

theorem filled (h : SameBut l m t t') (hu : t'.Filled u m content) : SameBut l m t u where
  home := hu.home.trans h.home
  node? d hl hm := (hu.others d fun hsame => hm (h.names d hsame)).trans (h.node? d hl hm)
  names d hsame := h.names d ((hu.sameFile m d).1 hsame)

theorem move (h : SameBut l m t t') (hnil : m ≠ []) : SameBut l m t (t'.move m l) where
  home := home_move.trans h.home
  node? d hl hm :=
    (node?_move_of_ne (fun heq => hm (.inl heq.symm)) hl).trans (h.node? d hl hm)
  names d hsame := by
    by_cases hnames : t'.SameFile m l
    · rw [move_of_sameFile hnames] at hsame
      exact h.names d hsame
    · -- The name was taken away, so it is that of no file.
      exact .inl (Classical.byContradiction fun hne =>
        hsame.node?_ne_none hne (node?_move_source hnil hnames))

theorem hasDirectories (h : SameBut l m t t') (hl : t.node? l ≠ some .directory)
    (hm : t.node? m ≠ some .directory) : t'.HasDirectories t := by
  refine hasDirectories_of_differs fun d hd => ?_
  by_cases hdl : d = l
  · exact hdl ▸ hl
  · have hsame : t.SameFile m d := Classical.byContradiction fun hdm => hd (h.node? d hdl hdm)
    exact hsame.node?_eq ▸ hm

theorem find (h : SameBut l m t t') (hl : t.node? l ≠ some .directory)
    (hm : t.node? m ≠ some .directory) (hlinks : t.Unlinked)
    (hfind : t.find aim path = .ok ⟨d, node⟩) (hnode : node ≠ some .directory)
    (hdl : d ≠ l) (hdm : ¬ t.SameFile m d) : t'.find aim path = .ok ⟨d, node⟩ := by
  obtain ⟨hcheck, hd, rfl⟩ := locates_of_find hlinks hfind hnode
  rw [← h.node? d hdl hdm] at hnode ⊢
  refine find_of_locates aim hcheck (hd.mono (h.hasDirectories hl hm) h.home) hnode ?_
  rw [h.node? d hdl hdm]
  exact hlinks d

end SameBut

end Files.Tree

namespace FileCatalog

open Files Files.Tree

variable {path other : String} {files start : Tree} {s : TextSet} {l m : Location}
  {c : FileCatalog}

/-- A batch changes no other location, but for names of the temporary file. -/
theorem Sites.change (h : Sites c.path start l m) (hkeeps : Keeps c.path c.files s)
    (hsame : SameBut l m start c.files) (f : TextSet → TextSet) :
    SameBut l m start (change f c).state.files := by
  have hdirs := hsame.hasDirectories h.catalog_takes.ne_directory h.temporary_takes.ne_directory
  obtain ⟨l', m', hsites⟩ := hkeeps.exists_sites
  obtain rfl := (h.catalog.mono hdirs hsame.home).unique hsites.catalog
  obtain rfl := (h.temporary.mono hdirs hsame.home).unique hsites.temporary
  obtain ⟨stored, hfilled, hwrite⟩ := hsites.exists_filled (f s)
  unfold FileCatalog.change updateAt
  rw [entriesAt_of_keeps hkeeps]
  dsimp only
  rw [hwrite]
  exact (hsame.filled hfilled).move h.temporary.ne_nil

/-- The other path leads neither to the catalog nor to the temporary file, under whatever name. -/
def Beside (files : Tree) (path other : String) : Prop :=
  ∀ place, files.find .content other = .ok place →
    (∀ site, files.find .content path = .ok site → place.location ≠ site.location) ∧
    ∀ site, files.find .content (temporary path) = .ok site →
      ¬ files.SameFile site.location place.location

/-- A catalog that can be written never fails, and its batches leave alone what stands beside. -/
theorem Keeps.exists_law (h : Keeps path files s) :
    ∃ law : CatalogLaw FileCatalog, (∀ k t, ¬ law.Failed k t) ∧ law.Holds ⟨path, files⟩ s ∧
      ∀ c t, law.Holds c t → c.path = path ∧ Keeps path c.files t ∧
        ∀ other place, Beside files path other → files.find .content other = .ok place →
          place.node ≠ some .directory → c.files.find .content other = .ok place := by
  obtain ⟨l, m, hsites⟩ := h.exists_sites
  let law : CatalogLaw FileCatalog :=
    (law path (fun _ => True) fun _ _ _ _ => trivial).and (SameBut l m files ·.files)
      (fun _ _ _ hsame => hsame)
      (by rintro _ _ batch ⟨rfl, hkeeps, -⟩ hsame; exact hsites.change hkeeps hsame (· ∪ batch))
      (by rintro _ _ batch ⟨rfl, hkeeps, -⟩ hsame; exact hsites.change hkeeps hsame (· \ batch))
      (fun c _ capability _ hsame => by
        have hstate : (CatalogStore.contains capability c).state = c := Call.state_bind_pure
        rwa [hstate])
  refine ⟨law, fun _ _ => id, ⟨⟨rfl, h, trivial⟩, .refl l m files⟩, ?_⟩
  rintro c t ⟨⟨hpath, hkeeps, -⟩, hsame⟩
  refine ⟨hpath, hkeeps, fun other place hbeside hfind hdir => ?_⟩
  obtain ⟨hcatalog, htemporary⟩ := hbeside place hfind
  exact hsame.find hsites.catalog_takes.ne_directory hsites.temporary_takes.ne_directory
    h.unlinked hfind hdir (hcatalog _ (hsites.find .content))
    (htemporary _ (hsites.find_temporary .content))

end FileCatalog

end Warrant
