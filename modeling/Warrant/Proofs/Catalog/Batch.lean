import Warrant.Proofs.Catalog.File
import Warrant.Proofs.Files.Entries

/-!
# What a batch leaves in a tree with links

The temporary file is opened through links, and moved as an entry. A batch that succeeds is read
back then, except where the temporary path was a link that leads to the catalog: the move makes that
a link to itself (`loaded_after_batch`).
-/

namespace Warrant

namespace Batch

theorem call_eq_change (b : Batch) :
    (b.call : Call FileCatalog _ _) = FileCatalog.change b.apply := by
  cases b with
  | add entries => rfl
  | remove entries => rfl

end Batch

namespace FileCatalog

open Files Files.Tree

variable {path : String} {t u v : Tree} {entries old : TextSet} {l x : Location}
  {node : Option Node} {content : ByteArray} {init : List String} {q r : Position} {last : String}

/-! ### What the operations did -/

theorem find_of_create (h : t.create path = .ok (l, u)) :
    ∃ node, t.find .creation path = .ok ⟨l, node⟩ ∧ t.node? l = node ∧
      (TakesFile node ∧ t.Filled u l .empty ∨ ∃ kind, node = some (.device kind) ∧ u = t) := by
  obtain ⟨⟨m, node⟩, hfind, hopened⟩ := exists_of_bind_ok h
  have hcontent := lookUp_content_of_creation (lookUp_of_find hfind).2
  have hfilled : TakesFile node → m = l ∧ t.node? l = node ∧ t.Filled u l .empty := by
    intro hnode
    obtain ⟨hm, -, -⟩ := node?_of_lookUp hcontent hnode.ne_directory
    obtain ⟨opened, hcreate, hfilled⟩ := exists_filled_of_create hfind hnode hm
    cases hcreate.symm.trans h
    exact ⟨rfl, hm, hfilled⟩
  cases node with
  | none =>
    obtain ⟨rfl, hm, hfilled⟩ := hfilled (.inl rfl)
    exact ⟨none, hfind, hm, .inl ⟨.inl rfl, hfilled⟩⟩
  | some n =>
    cases n with
    | file old =>
      obtain ⟨rfl, hm, hfilled⟩ := hfilled (.inr ⟨old, rfl⟩)
      exact ⟨_, hfind, hm, .inl ⟨.inr ⟨old, rfl⟩, hfilled⟩⟩
    | directory => cases hopened
    | link target => cases hopened
    | device kind =>
      cases hopened
      exact ⟨_, hfind, (node?_of_lookUp hcontent nofun).1, .inr ⟨kind, rfl, rfl⟩⟩

theorem fill_of_store (h : t.store l content = .ok u) :
    (∀ kind, t.node? l ≠ some (.device kind)) ∧ u = t.fill l content := by
  unfold store at h
  split at h
  · cases h
  · cases h
  · rename_i hfull hdevice
    cases h
    exact ⟨hdevice, rfl⟩

theorem move_of_rename {source target : String} (h : t.rename source target = .ok u) :
    ∃ m n l node, t.find .entry source = .ok ⟨m, some n⟩ ∧ t.find .entry target = .ok ⟨l, node⟩ ∧
      node ≠ some .directory ∧ u = t.move m l := by
  obtain ⟨⟨m, found⟩, hsource, h⟩ := exists_of_bind_ok h
  cases found with
  | none => cases h
  | some n =>
    obtain ⟨⟨l, node⟩, htarget, h⟩ := exists_of_bind_ok h
    dsimp only at h
    split at h
    · cases h
    · rename_i hnode
      cases h
      exact ⟨m, n, l, node, hsource, htarget, hnode, rfl⟩

theorem steps_of_writeAt {events : List Event}
    (h : writeAt path entries t = ⟨.ok (), v, events⟩) :
    ∃ x opened stored, t.create (temporary path) = .ok (x, opened) ∧
      opened.store x (Catalog.Document.encode entries).toUTF8 = .ok stored ∧
      stored.rename (temporary path) path = .ok v := by
  unfold writeAt at h
  have habandon : ∀ (reason : Trouble) (u : Tree),
      (abandon path reason u : Outcome Tree Trouble Unit) ≠ ⟨.ok (), v, events⟩ := by
    intro reason u hout
    unfold abandon at hout
    split at hout <;> cases hout
  split at h
  · cases h
  rename_i x opened hcreate
  split at h
  · exact absurd h (habandon _ _)
  rename_i stored hstore
  split at h
  · exact absurd h (habandon _ _)
  rename_i replaced hrename
  cases h
  exact ⟨x, opened, stored, hcreate, hstore, hrename⟩

/-! ### Reading -/

theorem entriesAt_of_read_error {e : Files.Fault} (hread : t.read path = .error e)
    (he : e ≠ .noEntry) : entriesAt t path = .error (.reading e) := by
  unfold entriesAt
  rw [hread]
  split
  · rename_i hnone
    cases hnone
    exact absurd rfl he
  · rename_i hsome
    cases hsome
    rfl
  · rename_i hok
    cases hok

theorem entriesAt_of_find_error {e : Files.Fault} (hfind : t.find .content path = .error e)
    (he : e ≠ .noEntry) : entriesAt t path = .error (.reading e) := by
  refine entriesAt_of_read_error ?_ he
  rw [Tree.read, hfind]
  rfl

theorem entriesAt_of_file
    (hfind : t.find .content path =
      .ok ⟨l, some (.file (Catalog.Document.encode entries).toUTF8)⟩) :
    entriesAt t path = .ok entries := by
  have hread : t.read path = .ok (Catalog.Document.encode entries).toUTF8 := by
    rw [Tree.read, hfind]
    rfl
  rw [entriesAt, hread]
  dsimp only
  rw [Catalog.Document.ofBytes?_encode]

theorem eq_noEntry_of_reaches {e : Files.Fault} (hold : entriesAt t path = .ok old)
    (hcheck : Path.check path = .ok ()) (hreach : t.Reaches (t.origin path) r)
    (hout : t.lookUp .content r = .error e) : e = .noEntry := by
  by_contra he
  have hfind := (find_eq .content hcheck).trans ((lookUp_of_reaches hreach).trans hout)
  rw [entriesAt_of_find_error hfind he] at hold
  cases hold

/-- Where a catalog is read, the look-up does not run out of links or lead to a directory. -/
theorem lookUp_of_entriesAt (hold : entriesAt t path = .ok old)
    (hcheck : Path.check path = .ok ()) :
    t.lookUp .content (t.origin path) ≠ .error .tooManyLinks ∧
      ∀ m, t.lookUp .content (t.origin path) ≠ .ok ⟨m, some .directory⟩ := by
  refine ⟨fun hout => ?_, fun m hdir => ?_⟩
  · exact absurd (eq_noEntry_of_reaches hold hcheck (.refl t _) hout) (by decide)
  · have hread : t.read path = .error .isDirectory := by
      rw [Tree.read, find_eq .content hcheck, hdir]
      rfl
    rw [entriesAt_of_read_error hread (by decide)] at hold
    cases hold

/-! ### The trees before and after -/

/-- The trees before and after a batch is written to a path, whose temporary file was opened at
`x`. Both paths stand for entries of one directory, and the one of the path gets what the temporary
one has: a link, or the file with the content. The temporary entry is gone then, unless both were
names of one file. -/
structure Written (path : String) (t v : Tree) (init : List String) (q : Position) (last : String)
    (x : Location) (content : ByteArray) : Prop where
  checked : Path.check path = .ok ()
  home : v.home = t.home
  catalog : t.Stands path init q last
  temporary : t.Stands (FileCatalog.temporary path) init q (last ++ ".tmp")
  readable : t.DeadEnd (q.here ++ [last])
  opened : ∃ node, t.lookUp .content (t.origin (FileCatalog.temporary path)) = .ok ⟨x, node⟩ ∧
    TakesFile node
  moved_link : ∀ target, t.node? (q.here ++ [last ++ ".tmp"]) = some (.link target) →
    v.node? (q.here ++ [last]) = some (.link target)
  moved_file : (∀ target, t.node? (q.here ++ [last ++ ".tmp"]) ≠ some (.link target)) →
    v.node? (q.here ++ [last]) = some (.file content)
  written : ∀ l, t.SameFile x l → l ≠ q.here ++ [last] → l ≠ q.here ++ [last ++ ".tmp"] →
    v.node? l = some (.file content)
  removed : ¬ t.SameFile (q.here ++ [last ++ ".tmp"]) (q.here ++ [last]) →
    v.node? (q.here ++ [last ++ ".tmp"]) = none
  kept : t.SameFile (q.here ++ [last ++ ".tmp"]) (q.here ++ [last]) → t.Filled v x content
  others : ∀ l, v.node? l ≠ t.node? l →
    l = q.here ++ [last] ∨ l = q.here ++ [last ++ ".tmp"] ∨ t.SameFile x l

theorem temporary_ne (here : Location) (last : String) :
    here ++ [last] ≠ here ++ [last ++ ".tmp"] := by
  intro heq
  have hname := List.singleton_inj.1 (List.append_cancel_left heq)
  have hlength := congrArg String.length hname
  rw [String.length_append] at hlength
  have hsuffix : ".tmp".length = 4 := rfl
  omega

theorem exists_stored {events : List Event}
    (hwrite : writeAt path entries t = ⟨.ok (), v, events⟩) :
    ∃ (x : Location) (node : Option Node) (u : Tree),
      t.find .creation (temporary path) = .ok ⟨x, node⟩ ∧ TakesFile node ∧ t.node? x = node ∧
      t.Filled u x (Catalog.Document.encode entries).toUTF8 ∧
      u.rename (temporary path) path = .ok v := by
  obtain ⟨x, opened, stored, hcreate, hstore, hrename⟩ := steps_of_writeAt hwrite
  obtain ⟨node, hfind, hx, hopened⟩ := find_of_create hcreate
  obtain ⟨hdevice, rfl⟩ := fill_of_store hstore
  obtain ⟨hnode, hfilled⟩ | ⟨kind, rfl, rfl⟩ := hopened
  · exact ⟨x, node, _, hfind, hnode, hx, hfilled.fill, hrename⟩
  · -- A device does not keep what is written.
    exact absurd hx (hdevice kind)

/-- The path and the temporary path stand for entries of one directory. What is looked up through
the temporary one may be in another tree than what is looked up through the path. -/
theorem exists_stands_of_finds {aim aim' : Aim} {node' : Option Node}
    (htemporary : t.find aim (temporary path) = .ok ⟨x, node⟩) (hnode : node ≠ some .directory)
    (hcatalog : u.find aim' path = .ok ⟨l, node'⟩) (hnode' : node' ≠ some .directory) :
    ∃ init q last, t.Stands path init q last ∧
      t.Stands (temporary path) init q (last ++ ".tmp") := by
  obtain ⟨init, q, last', htemporary⟩ := exists_stands_of_find htemporary hnode
  obtain ⟨init', _, last, hstands⟩ := exists_stands_of_find hcatalog hnode'
  have hnames : Path.names (temporary path) = init' ++ [last ++ ".tmp"] :=
    Path.names_append hstands.names hstands.entry.1.1 (by decide) (by decide)
  obtain ⟨rfl, hlast⟩ := List.append_inj' (htemporary.names.symm.trans hnames) rfl
  obtain rfl := List.singleton_inj.1 hlast
  have hempty : path ≠ "" := by
    rintro rfl
    cases (lookUp_of_find hcatalog).1
  exact ⟨init, q, last, htemporary.of_append hstands.names hstands.entry hempty, htemporary⟩

/-- What is written makes of a tree where the look-up for the path does not run out of links or lead
to a directory. -/
theorem exists_written_of_lookUp {events : List Event}
    (hlookUp : Path.check path = .ok () →
      t.lookUp .content (t.origin path) ≠ .error .tooManyLinks ∧
        ∀ m, t.lookUp .content (t.origin path) ≠ .ok ⟨m, some .directory⟩)
    (hwrite : writeAt path entries t = ⟨.ok (), v, events⟩) :
    ∃ init q last x,
      Written path t v init q last x (Catalog.Document.encode entries).toUTF8 := by
  obtain ⟨x, node, u, hfind, hnode, hx, hu, hrename⟩ := exists_stored hwrite
  generalize (Catalog.Document.encode entries).toUTF8 = content at hu ⊢
  have hdead : ∀ l, u.node? l ≠ t.node? l → t.DeadEnd l := by
    intro l hl
    have htakes : TakesFile (t.node? l) := (hu.differs hl).node?_eq ▸ hx ▸ hnode
    exact deadEnd_of_node htakes.ne_directory htakes.ne_link
  obtain ⟨m, n, l, node', hsource, htarget, hnode', rfl⟩ := move_of_rename hrename
  have hcheck := (lookUp_of_find htarget).1
  have hcheck' := (lookUp_of_find hsource).1
  obtain ⟨init, q, last, hcatalog, htemporary⟩ :=
    exists_stands_of_finds hfind hnode.ne_directory htarget hnode'
  -- The move takes the entry of the one to that of the other.
  rw [(htemporary.of_deadEnds hu.home hdead).find_entry hcheck'] at hsource
  rw [(hcatalog.of_deadEnds hu.home hdead).find_entry hcheck] at htarget
  cases htarget
  obtain rfl : q.here ++ [last ++ ".tmp"] = m := congrArg Place.location (Except.ok.inj hsource)
  have hopened := lookUp_content_of_creation (lookUp_of_find hfind).2
  have hmoved : (u.move (q.here ++ [last ++ ".tmp"]) (q.here ++ [last])).node? (q.here ++ [last]) =
      u.node? (q.here ++ [last ++ ".tmp"]) := node?_move_target (by simp) (by simp)
  refine ⟨init, q, last, x, hcheck, home_move.trans hu.home, hcatalog, htemporary, ?_,
    ⟨node, hopened, hnode⟩, fun target htarget => ?_, fun hlink => ?_,
    fun l hl hcatalog' htemporary' => ?_, fun hother => ?_, fun hsame => ?_, fun l hl => ?_⟩
  · obtain ⟨hlinks, hdir⟩ := hlookUp hcheck
    exact hcatalog.deadEnd hlinks hdir
  · have hother : ¬ t.SameFile x (q.here ++ [last ++ ".tmp"]) := fun hsame =>
      hnode.ne_link target (hx.symm.trans (hsame.node?_eq.trans htarget))
    rw [hmoved, hu.others _ hother, htarget]
  · rw [htemporary.lookUp] at hopened
    obtain rfl := location_of_lookUp htemporary.entry hopened hnode.ne_directory hlink
    rw [hmoved, hu.content_self]
  · rw [node?_move_of_ne htemporary' hcatalog', hu.content l hl]
  · exact node?_move_source (by simp) ((hu.sameFile _ _).not.2 hother)
  · rw [move_of_sameFile ((hu.sameFile _ _).2 hsame)]
    exact hu
  · by_contra hnot
    obtain ⟨hcatalog', hnot⟩ := not_or.1 hnot
    obtain ⟨htemporary', hx'⟩ := not_or.1 hnot
    rw [node?_move_of_ne htemporary' hcatalog', hu.others l hx'] at hl
    exact hl rfl

/-- What a batch that is written makes of the tree. -/
theorem exists_written {events : List Event} (hold : entriesAt t path = .ok old)
    (hwrite : writeAt path entries t = ⟨.ok (), v, events⟩) :
    ∃ init q last x,
      Written path t v init q last x (Catalog.Document.encode entries).toUTF8 :=
  exists_written_of_lookUp (lookUp_of_entriesAt hold) hwrite

/-! ### Reading back -/

namespace Written

variable (h : Written path t v init q last x content)

include h

theorem deadEnd_temporary : t.DeadEnd (q.here ++ [last ++ ".tmp"]) := by
  obtain ⟨node, hopened, hnode⟩ := h.opened
  exact h.temporary.deadEnd_of_lookUp hopened hnode.ne_directory

theorem takesFile : TakesFile (t.node? x) := by
  obtain ⟨node, hopened, hnode⟩ := h.opened
  obtain ⟨hx, -, -⟩ := node?_of_lookUp hopened hnode.ne_directory
  exact hx ▸ hnode

theorem sameWays (hfilled : t.Filled v x content) : SameWays t v where
  home := hfilled.home
  leaves l hl := by
    have hsame := hfilled.differs hl
    rw [hfilled.content l hsame, ← hsame.node?_eq]
    exact ⟨⟨h.takesFile.ne_directory, h.takesFile.ne_link⟩, nofun, nofun⟩

theorem takesFile_of_sameFile (hl : t.SameFile x l) : TakesFile (t.node? l) :=
  hl.node?_eq ▸ h.takesFile

theorem deadEnd_of_differs (hl : v.node? l ≠ t.node? l) : t.DeadEnd l := by
  obtain rfl | rfl | hsame := h.others l hl
  · exact h.readable
  · exact h.deadEnd_temporary
  · have htakes := h.takesFile_of_sameFile hsame
    exact deadEnd_of_node htakes.ne_directory htakes.ne_link

theorem stands : v.Stands path init q last :=
  h.catalog.of_deadEnds h.home fun _ => h.deadEnd_of_differs

theorem stands_temporary : v.Stands (FileCatalog.temporary path) init q (last ++ ".tmp") :=
  h.temporary.of_deadEnds h.home fun _ => h.deadEnd_of_differs

theorem find : v.find .content path = v.lookUp .content ⟨q.links, q.here, [last]⟩ :=
  (find_eq .content h.checked).trans (h.stands.lookUp .content)

/-- Where the temporary path may lead, besides its own entry. -/
theorem exists_of_leadsTo (hleads : t.LeadsTo (FileCatalog.temporary path) (q.here ++ [last])) :
    ∃ s r, t.Step ⟨q.links, q.here, [last ++ ".tmp"]⟩ s ∧ t.Reaches s r ∧
      r.EndsAt (q.here ++ [last]) := by
  obtain ⟨r, hreach, hr⟩ := hleads
  rw [h.temporary.origin_eq] at hreach
  obtain heq | ⟨s, hstep, hrest⟩ := h.temporary.reaches.of_last h.temporary.arrived hreach hr
  · exact absurd heq (temporary_ne q.here last)
  · rw [Position.followedBy, h.temporary.arrived] at hstep
    exact ⟨s, r, hstep, hrest, hr⟩

theorem leadsTo_of_reaches {s : Position} (hstep : t.Step ⟨q.links, q.here, [last ++ ".tmp"]⟩ s)
    (hreach : t.Reaches s r) (hr : r.EndsAt l) : t.LeadsTo (FileCatalog.temporary path) l := by
  refine ⟨r, ?_, hr⟩
  have hentry := h.temporary.reaches.followedBy [last ++ ".tmp"]
  rw [← h.temporary.origin_eq, Position.followedBy, h.temporary.arrived] at hentry
  exact hentry.trans (hreach.head hstep)

/-- A link in place of the temporary file is followed to where that was opened, and in place of the
catalog by the same links. -/
theorem exists_follow {target : String}
    (hlink : t.node? (q.here ++ [last ++ ".tmp"]) = some (.link target)) :
    ∃ k node, let s : Position := ⟨k, base q.here target, Path.names target⟩
      t.Step ⟨q.links, q.here, [last ++ ".tmp"]⟩ s ∧ v.Step ⟨q.links, q.here, [last]⟩ s ∧
        t.lookUp .content s = .ok ⟨x, node⟩ ∧ TakesFile node := by
  obtain ⟨node, hopened, hnode⟩ := h.opened
  rw [h.temporary.lookUp] at hopened
  obtain ⟨links, here, names⟩ := q
  cases links with
  | zero =>
    have hend : t.End ⟨0, here, [last ++ ".tmp"]⟩ _ := .outOfLinks h.temporary.entry hlink
    cases hend.lookUp_content.symm.trans hopened
  | succ k =>
    have hstep : t.Step ⟨k + 1, here, [last ++ ".tmp"]⟩ ⟨k, base here target, _ ++ []⟩ :=
      .follow h.temporary.entry hlink
    have hstep' : v.Step ⟨k + 1, here, [last]⟩ ⟨k, base here target, _ ++ []⟩ :=
      .follow h.catalog.entry (h.moved_link target hlink)
    rw [List.append_nil] at hstep hstep'
    exact ⟨k, node, hstep, hstep', hstep.lookUp_content ▸ hopened, hnode⟩

/-- From the target of the link, a look-up goes the same way as before, unless it comes to the entry
of the catalog. -/
theorem reaches_after {target : String} {k : Nat}
    (hlink : t.node? (q.here ++ [last ++ ".tmp"]) = some (.link target))
    (hopened : t.lookUp .content ⟨k, base q.here target, Path.names target⟩ = .ok ⟨x, node⟩)
    (hreach : t.Reaches ⟨k, base q.here target, Path.names target⟩ r) :
    let s : Position := ⟨k, base q.here target, Path.names target⟩
    v.Reaches s r ∨ ∃ r', t.Reaches s r' ∧ v.Reaches s r' ∧ r'.EndsAt (q.here ++ [last]) := by
  intro s
  obtain hafter | ⟨r', l, hr, hr', hrest, hlook, hdiffer⟩ := hreach.congr v
  · exact .inl hafter
  have hplace := (lookUp_of_reaches hr).symm.trans hopened
  have hends := (h.deadEnd_of_differs hdiffer r' _ hlook hplace).1
  -- The way may meet the catalog, the link it started from, or the file that was written.
  obtain rfl | rfl | hsame := h.others l hdiffer
  · exact .inr ⟨r', hr, hr', hends⟩
  · -- The target would lead back to the link.
    cases (lookUp_of_loop hr hends hlink k).symm.trans hopened
  · have htakes := h.takesFile_of_sameFile hsame
    obtain rfl | ⟨s', hstep, -⟩ := hrest.cases_head
    · exact .inl hr'
    · exact absurd hstep (not_step_of_node hlook htakes.ne_directory htakes.ne_link)

theorem lookUp_of_leadsTo (hleads : t.LeadsTo (FileCatalog.temporary path) (q.here ++ [last])) :
    v.lookUp .content ⟨q.links, q.here, [last]⟩ = .error .tooManyLinks := by
  obtain ⟨s, r, hstep, hreach, hr⟩ := h.exists_of_leadsTo hleads
  by_cases hlink : ∃ target, t.node? (q.here ++ [last ++ ".tmp"]) = some (.link target)
  · obtain ⟨target, hlink⟩ := hlink
    obtain ⟨k, node, hstep', hafter, hopened, -⟩ := h.exists_follow hlink
    obtain rfl := hstep.unique hstep'
    rw [hafter.lookUp_content]
    have hmoved := h.moved_link target hlink
    obtain hreach' | ⟨r', -, hreach', hr'⟩ := h.reaches_after hlink hopened hreach
    · exact lookUp_of_loop hreach' hr hmoved k
    · exact lookUp_of_loop hreach' hr' hmoved k
  · have hdir := h.deadEnd_temporary.ne_directory h.temporary.entry
    have hlook : Position.LooksAt ⟨q.links, q.here, [last ++ ".tmp"]⟩ _ :=
      ⟨_, [], rfl, h.temporary.entry, rfl⟩
    exact absurd hstep (not_step_of_node hlook hdir (not_exists.1 hlink))

theorem lookUp_of_not_leadsTo
    (hnot : ¬ t.LeadsTo (FileCatalog.temporary path) (q.here ++ [last])) :
    ∃ m, v.lookUp .content ⟨q.links, q.here, [last]⟩ = .ok ⟨m, some (.file content)⟩ := by
  by_cases hlink : ∃ target, t.node? (q.here ++ [last ++ ".tmp"]) = some (.link target)
  · obtain ⟨target, hlink⟩ := hlink
    obtain ⟨k, node, hstep, hafter, hopened, hnode⟩ := h.exists_follow hlink
    obtain ⟨hx, hnolink, r, hreach, hr⟩ := node?_of_lookUp hopened hnode.ne_directory
    -- The file that was opened is neither of the two entries, so it holds the content.
    have hcatalog : x ≠ q.here ++ [last] := fun heq =>
      hnot (h.leadsTo_of_reaches hstep hreach (heq ▸ hr))
    have htemporary : x ≠ q.here ++ [last ++ ".tmp"] := by
      rintro rfl
      exact hnolink target (hx.symm.trans hlink)
    rw [hafter.lookUp_content]
    obtain hreach' | ⟨r', hreach', -, hr'⟩ := h.reaches_after hlink hopened hreach
    · have hfile := h.written x (.refl t x) hcatalog htemporary
      exact ⟨x, (lookUp_of_reaches hreach').trans (lookUp_file hr hfile)⟩
    · exact absurd (h.leadsTo_of_reaches hstep hreach' hr') hnot
  · have hfile := h.moved_file (not_exists.1 hlink)
    exact ⟨_, lookUp_file ⟨last, rfl, h.catalog.entry, rfl⟩ hfile⟩

end Written

/-! ### The batch -/

/-- A batch that succeeds found a catalog, and the next reading answers what it makes of that. Where
the temporary path was a link that leads to the entry of the catalog, the next reading fails
instead, for the catalog is then a link that leads to itself. -/
theorem loaded_after_batch (b : Batch) (c k : FileCatalog) (events : List Event)
    (hok : b.call c = ⟨.ok (), k, events⟩) :
    let loops := c.files.LeadsToEntry (temporary c.path) c.path
    ∃ old, load c = ⟨.ok old, c, []⟩ ∧ k.path = c.path ∧
      (¬ loops → load k = ⟨.ok (b.apply old), k, []⟩) ∧
      (loops → load k = ⟨.error (failure k.path (.reading .tooManyLinks)), k, []⟩) := by
  intro loops
  rw [Batch.call_eq_change, change] at hok
  cases hold : entriesAt c.files c.path with
  | error reason =>
    rw [updateAt, hold] at hok
    cases hok
  | ok old =>
    rw [updateAt, hold] at hok
    dsimp only at hok
    generalize hwrite : writeAt c.path (b.apply old) c.files = out at hok
    obtain ⟨answer, files, events'⟩ := out
    cases answer with
    | error reason => cases hok
    | ok u =>
      cases hok
      obtain ⟨init, q, last, x, h⟩ := exists_written hold hwrite
      have hloops : loops ↔ c.files.LeadsTo (temporary c.path) (q.here ++ [last]) :=
        h.catalog.leadsToEntry_iff h.checked
      refine ⟨old, ?_, rfl, fun hnot => ?_, fun hleads => ?_⟩
      · rw [load, hold]
        rfl
      · obtain ⟨m, hfile⟩ := h.lookUp_of_not_leadsTo (hloops.not.1 hnot)
        rw [load, entriesAt_of_file (h.find.trans hfile)]
        rfl
      · have hout := h.find.trans (h.lookUp_of_leadsTo (hloops.1 hleads))
        rw [load, entriesAt_of_find_error hout (by decide)]
        rfl

/-- The temporary path is a link to a file aside. The batch is kept in that file, and the catalog is
the link. -/
theorem loaded_through_link :
    let files := (Tree.fresh.put ["work", "catalog.json"] (.file "[\"post:old\"]".toUTF8)).put
      ["work", "catalog.json.tmp"] (.link "aside.json")
    let c : FileCatalog := ⟨"catalog.json", files⟩
    let b : Batch := .add (TextSet.ofList ["post:delete"])
    let k := (b.call c).state
    (b.call c).answer = .ok () ∧
      k.files.node? ["work", "catalog.json"] = some (.link "aside.json") ∧
      ¬ files.LeadsToEntry (temporary "catalog.json") "catalog.json" ∧
      load k = ⟨.ok (TextSet.ofList ["post:delete", "post:old"]), k, []⟩ := by
  intro files c b k
  have hanswer : (b.call c).answer = .ok () := by decide +kernel
  have hold : load c = ⟨.ok (TextSet.ofList ["post:old"]), c, []⟩ := by
    have hentries : entriesAt files "catalog.json" = .ok (TextSet.ofList ["post:old"]) := by
      decide +kernel
    rw [load, hentries]
    rfl
  have hnot : ¬ files.LeadsToEntry (temporary "catalog.json") "catalog.json" := by
    rintro ⟨l, node, hfind, r, hreach, hr⟩
    obtain rfl : ["work"] ++ ["catalog.json"] = l := congrArg Place.location (Except.ok.inj hfind)
    have hname := hr.names_eq
    have horigin : files.origin (temporary "catalog.json") = ⟨40, ["work"], ["catalog.json.tmp"]⟩ :=
      rfl
    have hnames : base ["work"] "aside.json" = ["work"] ∧
        Path.names "aside.json" = ["aside.json"] := by decide
    have hstep : files.Step ⟨40, ["work"], ["catalog.json.tmp"]⟩
        ⟨39, base ["work"] "aside.json", Path.names "aside.json" ++ []⟩ :=
      .follow (by decide) rfl
    rw [hnames.1, hnames.2, ← horigin] at hstep
    have hlook : Position.LooksAt ⟨39, ["work"], ["aside.json"]⟩ ["work", "aside.json"] :=
      ⟨"aside.json", [], rfl, by decide, rfl⟩
    obtain rfl | ⟨s, hstep', hrest⟩ := hreach.cases_head
    · revert hname
      decide
    obtain rfl := hstep.unique hstep'
    obtain rfl | ⟨s, hstep'', -⟩ := hrest.cases_head
    · revert hname
      decide
    · have hfree : TakesFile (files.node? ["work", "aside.json"]) := .inl rfl
      exact not_step_of_node hlook hfree.ne_directory hfree.ne_link hstep''
  have hcall : b.call c = ⟨.ok (), k, (b.call c).events⟩ := by
    rw [← hanswer]
  obtain ⟨old, hload, -, hafter, -⟩ := loaded_after_batch b c k _ hcall
  rw [hold] at hload
  cases hload
  exact ⟨hanswer, by decide +kernel, hnot, hafter hnot⟩

/-- Where the temporary path is a link to the catalog, a batch succeeds and nothing can be read
after it. -/
theorem looping_link_not_loaded :
    let files := Tree.fresh.put ["work", "catalog.json.tmp"] (.link "catalog.json")
    let c : FileCatalog := ⟨"catalog.json", files⟩
    let b : Batch := .add (TextSet.ofList ["post:delete"])
    (load c).answer = .ok ∅ ∧ (b.call c).answer = .ok () ∧
      (load (b.call c).state).answer =
        .error (failure "catalog.json" (.reading .tooManyLinks)) := by
  intro files c b
  exact ⟨by decide +kernel, by decide +kernel, by decide +kernel⟩

end FileCatalog

end Warrant
