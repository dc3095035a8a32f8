import Warrant.Proofs.Files.Path
import Warrant.Proofs.Files.Tree

/-!
# Looking up without links

In a tree without links a path that leads to no directory stands for one location: the directory
that all its names but the last lead to, and the last name (`Locates`). What it leads to is what is
there, for whatever it is looked up (`find_of_locates`, `locates_of_find`). A change that leaves
the directories in place leaves the location (`Locates.mono`), and a longer last name stands for
another one (`Locates.ne_of_suffix`).
-/

namespace Warrant.Files.Tree

variable {t t' : Tree} {l l' here d : Location} {n : Node} {path name last : String}
  {names init : List String}

theorem place_unique {found : Except Fault Place} {node node' : Option Node}
    (h : found = .ok ⟨l, node⟩) (h' : found = .ok ⟨l', node'⟩) : l = l' ∧ node = node' :=
  Place.mk.inj (Except.ok.inj (h.symm.trans h'))

/-! ### Going down -/

/-- A name of an entry, and not of the directory itself or the one above. -/
def IsEntryName (name : String) : Prop :=
  (name ≠ "" ∧ name ≠ ".") ∧ name ≠ ".." ∧ ¬ maxName < name.utf8ByteSize

instance (name : String) : Decidable (IsEntryName name) := inferInstanceAs (Decidable (_ ∧ _))

/-- The directory that names lead to, if they do without links. -/
def descend (t : Tree) : Location → List String → Option Location
  | here, [] => some here
  | here, name :: rest =>
    if name = "" ∨ name = "." then t.descend here rest
    else if name = ".." then t.descend here.dropLast rest
    else if maxName < name.utf8ByteSize then none
    else if t.node? (here ++ [name]) = some .directory then t.descend (here ++ [name]) rest
    else none

def HasDirectories (t' t : Tree) : Prop :=
  ∀ l, t.node? l = some .directory → t'.node? l = some .directory

theorem descend_mono (h : t'.HasDirectories t) (hd : t.descend here names = some d) :
    t'.descend here names = some d := by
  induction names generalizing here with
  | nil => exact hd
  | cons name rest ih =>
    rw [descend] at hd ⊢
    split
    · rename_i hself
      rw [if_pos hself] at hd
      exact ih hd
    rename_i hself
    rw [if_neg hself] at hd
    split
    · rename_i hup
      rw [if_pos hup] at hd
      exact ih hd
    rename_i hup
    rw [if_neg hup] at hd
    split
    · rename_i hlong
      rw [if_pos hlong] at hd
      cases hd
    rename_i hlong
    rw [if_neg hlong] at hd
    split at hd
    · rename_i hdir
      rw [if_pos (h _ hdir)]
      exact ih hd
    · cases hd

theorem hasDirectories_of_differs
    (h : ∀ l, t'.node? l ≠ t.node? l → t.node? l ≠ some .directory) : t'.HasDirectories t := by
  intro l hl
  by_cases hsame : t'.node? l = t.node? l
  · exact hsame.trans hl
  · exact absurd hl (h l hsame)

variable {aim : Aim} {follow : Location → List String → Except Fault Place}

theorem walkNames_of_descend (hd : t.descend here init = some d) (hlast : IsEntryName last)
    (hdir : t.node? (d ++ [last]) ≠ some .directory)
    (hlink : ∀ target, t.node? (d ++ [last]) ≠ some (.link target)) :
    t.walkNames aim follow here (init ++ [last]) =
      .ok ⟨d ++ [last], t.node? (d ++ [last])⟩ := by
  obtain ⟨⟨hempty, hdot⟩, hup, hlong⟩ := hlast
  induction init generalizing here with
  | nil =>
    obtain rfl : here = d := Option.some.inj hd
    rw [List.nil_append, walkNames, if_neg (by simp [hempty, hdot]), if_neg hup,
      if_neg (by simp), if_neg hlong]
    split
    · rename_i hnode; rw [hnode]; rfl
    · rename_i hnode; exact absurd hnode hdir
    · rename_i hnode; exact absurd hnode (hlink _)
    · rename_i hnode; rw [hnode]; rfl
  | cons name rest ih =>
    rw [descend] at hd
    rw [List.cons_append, walkNames]
    split
    · rename_i hself
      rw [if_pos hself] at hd
      exact ih hd
    rename_i hself
    rw [if_neg hself] at hd
    split
    · rename_i hname
      rw [if_pos hname] at hd
      exact ih hd
    rename_i hname
    rw [if_neg hname] at hd
    -- The rest of the names is no slash at the end, for it ends in `last`.
    have hrest : ¬ (aim = .creation ∧ rest ++ [last] = [""]) := by
      rintro ⟨-, hslash⟩
      have hlast := congrArg List.getLast? hslash
      rw [List.getLast?_concat] at hlast
      exact hempty (Option.some.inj hlast)
    rw [if_neg hrest]
    split at hd
    · cases hd
    rename_i hname'
    rw [if_neg hname']
    split at hd
    · rename_i hnode
      rw [hnode]
      exact ih hd
    · cases hd

/-! ### Without links -/

def Unlinked (t : Tree) : Prop := ∀ l target, t.node? l ≠ some (.link target)

theorem unlinked_of_nodes (h : ∀ n ∈ t.nodes, ∀ target, n ≠ .link target) : t.Unlinked := by
  intro l target hl
  unfold node? at hl
  split at hl
  · cases hl
  · obtain ⟨i, -, hnode⟩ := Option.bind_eq_some_iff.1 hl
    exact h _ (List.mem_of_getElem? hnode) target rfl

theorem unlinked_fresh : fresh.Unlinked := unlinked_of_nodes (by simp [fresh, ofEntries])

theorem Unlinked.of_differs (h : t.Unlinked)
    (hd : ∀ l, t'.node? l ≠ t.node? l → ∀ target, t'.node? l ≠ some (.link target)) :
    t'.Unlinked := by
  intro l target hl
  by_cases hsame : t'.node? l = t.node? l
  · exact h l target (hsame.symm.trans hl)
  · exact hd l hsame target hl

theorem Unlinked.put_file {content : ByteArray} (h : t.Unlinked) (hl : l ≠ []) :
    (t.put l (.file content)).Unlinked := by
  refine h.of_differs fun d hd => ?_
  obtain rfl : d = l := Classical.byContradiction fun hne => hd (node?_put_of_ne hne)
  rw [node?_put_self hl]
  nofun

theorem descend_of_walkNames {node : Option Node} (hlinks : t.Unlinked)
    (h : t.walkNames aim follow here names = .ok ⟨l, node⟩) (hnode : node ≠ some .directory) :
    ∃ init last d, names = init ++ [last] ∧ IsEntryName last ∧ t.descend here init = some d ∧
      l = d ++ [last] ∧ node = t.node? l := by
  induction names generalizing here with
  | nil =>
    rw [walkNames] at h
    cases h
    exact absurd rfl hnode
  | cons name rest ih =>
    rw [walkNames] at h
    split at h
    · rename_i hself
      obtain ⟨init, last, d, rfl, hlast, hd, hl, hn⟩ := ih h
      refine ⟨name :: init, last, d, rfl, hlast, ?_, hl, hn⟩
      rw [descend, if_pos hself]
      exact hd
    rename_i hself
    split at h
    · rename_i hup
      obtain ⟨init, last, d, rfl, hlast, hd, hl, hn⟩ := ih h
      refine ⟨name :: init, last, d, rfl, hlast, ?_, hl, hn⟩
      rw [descend, if_neg hself, if_pos hup]
      exact hd
    rename_i hup
    split at h
    · cases h
    split at h
    · cases h
    rename_i hlong
    have hname : IsEntryName name := ⟨not_or.1 hself, hup, hlong⟩
    split at h
    · rename_i hnone
      split at h
      · rename_i hrest
        obtain rfl : rest = [] := List.isEmpty_iff.1 hrest
        cases h
        exact ⟨[], name, here, rfl, hname, rfl, rfl, hnone.symm⟩
      · cases h
    · rename_i hdir
      obtain ⟨init, last, d, rfl, hlast, hd, hl, hn⟩ := ih h
      refine ⟨name :: init, last, d, rfl, hlast, ?_, hl, hn⟩
      rw [descend, if_neg hself, if_neg hup, if_neg hlong, if_pos hdir]
      exact hd
    · rename_i hlink
      exact absurd hlink (hlinks _ _)
    · rename_i hsome
      split at h
      · rename_i hrest
        obtain rfl : rest = [] := List.isEmpty_iff.1 hrest
        cases h
        exact ⟨[], name, here, rfl, hname, rfl, rfl, hsome.symm⟩
      · cases h

/-! ### Paths -/

def start (t : Tree) (path : String) : Location := if Path.isAbsolute path then [] else t.home

/-- The path stands for a location in an existing directory. -/
def Locates (t : Tree) (path : String) (l : Location) : Prop :=
  ∃ init last d, Path.names path = init ++ [last] ∧ IsEntryName last ∧
    t.descend (t.start path) init = some d ∧ l = d ++ [last]

theorem Locates.ne_nil (h : t.Locates path l) : l ≠ [] := by
  obtain ⟨_, _, _, -, -, -, rfl⟩ := h
  simp

theorem Locates.mono (h : t.Locates path l) (hdirs : t'.HasDirectories t)
    (hhome : t'.home = t.home) : t'.Locates path l := by
  obtain ⟨init, last, d, hnames, hlast, hd, hl⟩ := h
  refine ⟨init, last, d, hnames, hlast, ?_, hl⟩
  rw [show t'.start path = t.start path by unfold start; rw [hhome]]
  exact descend_mono hdirs hd

theorem Locates.unique (h : t.Locates path l) (h' : t.Locates path l') : l = l' := by
  obtain ⟨init, last, d, hnames, -, hd, rfl⟩ := h
  obtain ⟨init', last', d', hnames', -, hd', rfl⟩ := h'
  obtain ⟨rfl, hlast⟩ := List.append_inj' (hnames.symm.trans hnames') rfl
  cases hd.symm.trans hd'
  rw [hlast]

/-- A path with something more at its end stands for another location. -/
theorem Locates.ne_of_suffix {suffix : String} (h : t.Locates path l)
    (h' : t.Locates (path ++ suffix) l') (hslash : '/' ∉ suffix.toList) (hsuffix : suffix ≠ "") :
    l' ≠ l := by
  obtain ⟨init, last, d, hnames, hlast, hd, rfl⟩ := h
  obtain ⟨init', last', d', hnames', -, hd', rfl⟩ := h'
  rw [Path.names_append hnames hlast.1.1 hslash hsuffix] at hnames'
  intro he
  have hlast' : last ++ suffix = last' := List.singleton_inj.1 (List.append_inj_right' hnames' rfl)
  have hsame : last' = last := List.singleton_inj.1 (List.append_inj_right' he rfl)
  rw [hsame] at hlast'
  have hlength := congrArg String.length hlast'
  rw [String.length_append] at hlength
  have hempty : suffix.length = 0 := by omega
  exact hsuffix (String.length_eq_zero_iff.1 hempty)

theorem walk_eq (t : Tree) (aim : Aim) (links : Nat) (here : Location) (names : List String) :
    ∃ follow, t.walk aim links here names = t.walkNames aim follow here names := by
  cases links with
  | zero => exact ⟨_, rfl⟩
  | succ links => exact ⟨_, rfl⟩

theorem find_of_locates (aim : Aim) (hcheck : Path.check path = .ok ()) (h : t.Locates path l)
    (hdir : t.node? l ≠ some .directory) (hlink : ∀ target, t.node? l ≠ some (.link target)) :
    t.find aim path = .ok ⟨l, t.node? l⟩ := by
  obtain ⟨init, last, d, hnames, hlast, hd, rfl⟩ := h
  obtain ⟨follow, hwalk⟩ := t.walk_eq aim maxLinks (t.start path) (Path.names path)
  rw [find, hcheck]
  refine hwalk.trans ?_
  rw [hnames]
  exact walkNames_of_descend hd hlast hdir hlink

theorem locates_of_find {node : Option Node} (hlinks : t.Unlinked)
    (h : t.find aim path = .ok ⟨l, node⟩) (hnode : node ≠ some .directory) :
    Path.check path = .ok () ∧ t.Locates path l ∧ node = t.node? l := by
  unfold find at h
  cases hcheck : Path.check path with
  | error e => rw [hcheck] at h; cases h
  | ok u =>
    rw [hcheck] at h
    obtain ⟨follow, hwalk⟩ := t.walk_eq aim maxLinks (t.start path) (Path.names path)
    obtain ⟨init, last, d, hnames, hlast, hd, hl, hn⟩ :=
      descend_of_walkNames hlinks (hwalk.symm.trans h) hnode
    exact ⟨rfl, ⟨init, last, d, hnames, hlast, hd, hl⟩, hn⟩

end Warrant.Files.Tree
