import Warrant.Proofs.Catalog.Batch

/-!
# What a batch leaves that fails

A batch may fail for what is in the tree, or because the system refuses one of its steps
(`Refusals`). While the temporary file is open, the tree differs from the one before in that file
only (`Opened`), and when a batch is given up its entry is taken away. Unless it is a link through
which another file is opened, or what the catalog is read through, or a second name of the catalog,
the catalog reads as before (`intact_after_failure`). A second name shows what was written.
-/

namespace Warrant.FileCatalog

open Files Files.Tree

variable {path : String} {t u v : Tree} {entries old : TextSet} {l x : Location}
  {content : ByteArray} {α : Type}

/-! ### A system that refuses -/

/-- The steps of a batch that the system refuses, for reasons that are not in the tree. -/
structure Refusals where
  reading : Option Files.Fault
  creating : Option Files.Fault
  /-- Writing the temporary file or waiting for it to be kept: what is in the file then, and why. -/
  writing : Option (ByteArray × Files.Fault)
  replacing : Option Files.Fault

def Refusals.empty : Refusals := ⟨none, none, none, none⟩

/-- What a batch that comes to a set has written when it is given up. -/
def Refusals.written (R : Refusals) (entries : TextSet) : ByteArray :=
  match R.writing with
  | some (content, _) => content
  | none => (Catalog.Document.encode entries).toUTF8

def refused (refusal : Option Files.Fault) (answer : Except Files.Fault α) :
    Except Files.Fault α :=
  match refusal with
  | some reason => .error reason
  | none => answer

def entriesUnder (R : Refusals) (t : Tree) (path : String) : Except Trouble TextSet :=
  match R.reading with
  | some reason => .error (.reading reason)
  | none => entriesAt t path

/-- Writes the opened file. A failure comes with the tree that it leaves. -/
def storeUnder (R : Refusals) (t : Tree) (l : Location) (content : ByteArray) :
    Except (Files.Fault × Tree) Tree :=
  match R.writing with
  | some (written, reason) =>
    match t.store l written with
    | .ok left => .error (reason, left)
    | .error _ => .error (reason, t)
  | none =>
    match t.store l content with
    | .ok stored => .ok stored
    | .error reason => .error (reason, t)

def writeUnder (R : Refusals) (path : String) (entries : TextSet) : Call Tree Trouble Unit :=
  fun files =>
    match refused R.creating (files.create (temporary path)) with
    | .error reason => ⟨.error (.creating reason), files, []⟩
    | .ok (location, opened) =>
      match storeUnder R opened location (Catalog.Document.encode entries).toUTF8 with
      | .error (reason, left) => abandon path (.writing reason) left
      | .ok stored =>
        match refused R.replacing (stored.rename (temporary path) path) with
        | .error reason => abandon path (.replacing reason) stored
        | .ok replaced => ⟨.ok (), replaced, [.catalogWritten path entries.size]⟩

def updateUnder (R : Refusals) (path : String) (f : TextSet → TextSet) : Call Tree Trouble Unit :=
  fun files =>
    match entriesUnder R files path with
    | .error reason => ⟨.error reason, files, []⟩
    | .ok entries => writeUnder R path (f entries) files

def changeUnder (R : Refusals) (f : TextSet → TextSet) :
    Call FileCatalog (Failure StoreError) Unit := fun c =>
  let out := updateUnder R c.path f c.files
  ⟨out.answer.mapError (failure c.path), { c with files := out.state }, out.events⟩

/-- The batch got as far as to open its temporary file. -/
def Refusals.Opens (R : Refusals) (c : FileCatalog) : Prop :=
  (∃ old, entriesUnder R c.files c.path = .ok old) ∧
    ∃ opened, refused R.creating (c.files.create (temporary c.path)) = .ok opened

variable {R : Refusals}

theorem writeUnder_empty : writeUnder .empty path entries = writeAt path entries := by
  funext files
  unfold writeUnder writeAt refused storeUnder Refusals.empty
  dsimp only
  cases files.create (temporary path) with
  | error reason => rfl
  | ok opened =>
    obtain ⟨location, opened⟩ := opened
    dsimp only
    cases opened.store location (Catalog.Document.encode entries).toUTF8 with
    | error reason => rfl
    | ok stored => rfl

theorem changeUnder_empty (f : TextSet → TextSet) : changeUnder .empty f = change f := by
  funext c
  unfold changeUnder change updateUnder updateAt
  dsimp only
  rw [show entriesUnder .empty c.files c.path = entriesAt c.files c.path from rfl]
  cases entriesAt c.files c.path with
  | error reason => rfl
  | ok entries =>
    dsimp only
    rw [writeUnder_empty]

theorem ok_of_refused {refusal : Option Files.Fault} {answer : Except Files.Fault α} {a : α}
    (h : refused refusal answer = .ok a) : answer = .ok a := by
  cases refusal with
  | some reason => cases h
  | none => exact h

/-! ### While the temporary file is open -/

/-- The path is a link through which a file is opened, or made. -/
def LinksToFile (t : Tree) (path : String) : Prop :=
  ∃ l target m node, t.find .entry path = .ok ⟨l, some (.link target)⟩ ∧
    t.find .content path = .ok ⟨m, node⟩ ∧ TakesFile node

/-- The temporary path stands for an entry, and leads to no directory. Where there is such an entry,
it leads to something. -/
structure OpensAt (path : String) (t : Tree) (l : Location) : Prop where
  checked : Path.check (temporary path) = .ok ()
  stands : ∃ init q last, t.Stands (temporary path) init q last ∧ l = q.here ++ [last]
  leads : ∃ x node, t.lookUp .content (t.origin (temporary path)) = .ok ⟨x, node⟩ ∧
    node ≠ some .directory ∧ (node = none → t.node? l = none)

/-- The temporary file was opened at `x`: at its entry, and it has a content there; or it is a
device, be it that a link leads to it, which keeps none. -/
inductive Opened (t u : Tree) (l x : Location) (content : ByteArray) : Prop where
  | file (hx : x = l) (takes : TakesFile (t.node? l)) (filled : t.Filled u l content)
  | device (kind : Device) (same : u = t) (hx : t.node? x = some (.device kind))
      (keeps : ¬ TakesFile (t.node? l))

namespace OpensAt

theorem ne_nil (h : OpensAt path t l) : l ≠ [] := by
  obtain ⟨_, _, _, -, rfl⟩ := h.stands
  simp

theorem deadEnd (h : OpensAt path t l) : t.DeadEnd l := by
  obtain ⟨init, q, last, hstands, rfl⟩ := h.stands
  obtain ⟨x, node, hlookUp, hdir, -⟩ := h.leads
  exact hstands.deadEnd_of_lookUp hlookUp hdir

theorem ne_directory (h : OpensAt path t l) : t.node? l ≠ some .directory := by
  have hdead := h.deadEnd
  obtain ⟨init, q, last, hstands, rfl⟩ := h.stands
  exact hdead.ne_directory hstands.entry

theorem find_entry (h : OpensAt path t l) (hhome : u.home = t.home)
    (hdead : ∀ m, u.node? m ≠ t.node? m → t.DeadEnd m) :
    u.find .entry (temporary path) = .ok ⟨l, u.node? l⟩ := by
  obtain ⟨init, q, last, hstands, rfl⟩ := h.stands
  exact (hstands.of_deadEnds hhome hdead).find_entry h.checked

theorem find_entry_self (h : OpensAt path t l) :
    t.find .entry (temporary path) = .ok ⟨l, t.node? l⟩ :=
  h.find_entry rfl fun _ hne => absurd rfl hne

end OpensAt

/-- Opening the temporary file opens its entry, or a device that a link leads to. -/
theorem exists_opensAt (hlink : ¬ LinksToFile t (temporary path))
    (hcreate : t.create (temporary path) = .ok (x, u)) :
    ∃ l, OpensAt path t l ∧ Opened t u l x .empty := by
  obtain ⟨node, hfind, hx, hopened⟩ := find_of_create hcreate
  obtain ⟨hcheck, hcreation⟩ := lookUp_of_find hfind
  have hcontent := lookUp_content_of_creation hcreation
  have hdir : node ≠ some .directory := by
    obtain ⟨hnode, -⟩ | ⟨kind, rfl, -⟩ := hopened
    · exact hnode.ne_directory
    · nofun
  obtain ⟨init, q, last, hstands⟩ := exists_stands_of_find hfind hdir
  have hlocation := hcontent
  rw [hstands.lookUp] at hlocation
  obtain ⟨hnode, hfilled⟩ | ⟨kind, rfl, rfl⟩ := hopened
  · have hnolink : ∀ target, t.node? (q.here ++ [last]) ≠ some (.link target) := by
      intro target htarget
      have hentry := hstands.find_entry hcheck
      rw [htarget] at hentry
      exact hlink ⟨_, target, x, node, hentry, (find_eq .content hcheck).trans hcontent, hnode⟩
    obtain rfl := location_of_lookUp hstands.entry hlocation hdir hnolink
    exact ⟨_, ⟨hcheck, ⟨init, q, last, hstands, rfl⟩, _, node, hcontent, hdir, fun h => hx.trans h⟩,
      .file rfl (hx ▸ hnode) hfilled⟩
  · refine ⟨_, ⟨hcheck, ⟨init, q, last, hstands, rfl⟩, _, _, hcontent, hdir, nofun⟩,
      .device kind rfl hx fun htakes => ?_⟩
    -- Where a file may be made, no device is found.
    have hentry := hstands.find_of_node hcheck htakes.ne_directory htakes.ne_link .creation
    obtain ⟨-, hnode⟩ := place_unique hentry hfind
    rw [hnode] at htakes
    rcases htakes with hnone | ⟨_, hfile⟩
    · cases hnone
    · cases hfile

namespace Opened

variable {old : ByteArray}

theorem home (h : Opened t u l x content) : u.home = t.home := by
  cases h with
  | file hx takes filled => exact filled.home
  | device kind same hx keeps => rw [same]

theorem differs (h : Opened t u l x content) {m : Location} (hm : u.node? m ≠ t.node? m) :
    t.SameFile l m ∧ TakesFile (t.node? m) := by
  cases h with
  | file hx takes filled =>
    have hsame := filled.differs hm
    exact ⟨hsame, hsame.node?_eq ▸ takes⟩
  | device kind same hx keeps => exact absurd (by rw [same]) hm

theorem deadEnd (h : Opened t u l x content) {m : Location} (hm : u.node? m ≠ t.node? m) :
    t.DeadEnd m :=
  deadEnd_of_node (h.differs hm).2.ne_directory (h.differs hm).2.ne_link

theorem present (h : Opened t u l x content) (hopens : OpensAt path t l) :
    ∃ n, u.node? l = some n ∧ n ≠ .directory := by
  cases h with
  | file hx takes filled => exact ⟨_, filled.content_self, nofun⟩
  | device kind same hx keeps =>
    cases hn : t.node? l with
    | none => exact absurd (.inl hn) keeps
    | some n =>
      refine ⟨n, same ▸ hn, ?_⟩
      rintro rfl
      exact hopens.ne_directory hn

theorem of_store (h : Opened t u l x old) (hstore : u.store x content = .ok v) :
    Opened t v l x content := by
  obtain ⟨hdevice, rfl⟩ := fill_of_store hstore
  cases h with
  | file hx takes filled =>
    subst hx
    exact .file rfl takes filled.fill
  | device kind same hx keeps => exact absurd (same ▸ hx) (hdevice kind)

theorem of_store_error (h : Opened t u l x old) {reason : Files.Fault}
    (hstore : u.store x content = .error reason) (content' : ByteArray) :
    Opened t u l x content' := by
  cases h with
  | file hx takes filled =>
    subst hx
    cases (store_of_filled content filled).symm.trans hstore
  | device kind same hx keeps => exact .device kind same hx keeps

theorem of_storeUnder (h : Opened t u l x old) (entries : TextSet) :
    (∀ stored, storeUnder R u x (Catalog.Document.encode entries).toUTF8 = .ok stored →
      Opened t stored l x (R.written entries)) ∧
    ∀ reason left, storeUnder R u x (Catalog.Document.encode entries).toUTF8 =
      .error (reason, left) → Opened t left l x (R.written entries) := by
  unfold storeUnder Refusals.written
  split
  · split
    · rename_i hstore
      refine ⟨nofun, fun reason left heq => ?_⟩
      cases heq
      exact h.of_store hstore
    · rename_i hstore
      refine ⟨nofun, fun reason left heq => ?_⟩
      cases heq
      exact h.of_store_error hstore _
  · split
    · rename_i hstore
      refine ⟨fun stored heq => ?_, nofun⟩
      cases heq
      exact h.of_store hstore
    · rename_i hstore
      refine ⟨nofun, fun reason left heq => ?_⟩
      cases heq
      exact h.of_store_error hstore _

end Opened

/-! ### Giving up -/

theorem abandon_of_opened (h : OpensAt path t l) (ho : Opened t u l x content)
    (reason : Trouble) :
    (abandon path reason u : Outcome Tree Trouble α) = ⟨.error reason, u.erase l, []⟩ := by
  obtain ⟨n, hn, hdir⟩ := ho.present h
  have hremove : u.remove (temporary path) = .ok (u.erase l) := by
    rw [remove, h.find_entry ho.home fun _ => ho.deadEnd, hn]
    cases n with
    | directory => exact absurd rfl hdir
    | file content => rfl
    | link target => rfl
    | device kind => rfl
  rw [abandon, hremove]

/-- Past the temporary entry there is no catalog to read. -/
theorem OpensAt.not_past (h : OpensAt path t l) (hsome : t.node? l ≠ none) {r : Position}
    (hr : r.LooksAt l) (hnot : ¬ r.EndsAt l) :
    ∃ e, t.lookUp .content r = .error e ∧ e ≠ .noEntry := by
  obtain ⟨init, q, last, hstands, rfl⟩ := h.stands
  obtain ⟨x, node, hlookUp, hdir, hnone⟩ := h.leads
  rw [hstands.lookUp] at hlookUp
  have hends : Position.EndsAt ⟨q.links, q.here, [last]⟩ _ := ⟨last, rfl, hstands.entry, rfl⟩
  have hpast := lookUp_of_looksAt hends (by rw [hlookUp]; nofun)
    (fun m heq => hdir (place_unique hlookUp heq).2) hr
  obtain hout | ⟨rest, hbeyond, hrest⟩ := hpast
  · exact ⟨_, hout, by decide⟩
  · rw [hlookUp, beyond, leaf, if_neg fun hnil => hnot (hrest hnil),
      if_neg fun h => hsome (hnone h)] at hbeyond
    exact ⟨_, hbeyond, by decide⟩

theorem OpensAt.ne_of_looksAt (h : OpensAt path t l)
    (hpath : ¬ t.LeadsToEntry path (temporary path)) (hold : entriesAt t path = .ok old)
    (hcheck : Path.check path = .ok ()) (hsome : t.node? l ≠ none) {r : Position} {m : Location}
    (hreach : t.Reaches (t.origin path) r) (hlook : r.LooksAt m) : m ≠ l := by
  rintro rfl
  have hnot : ¬ r.EndsAt m := fun hends => hpath ⟨m, _, h.find_entry_self, r, hreach, hends⟩
  obtain ⟨e, hout, he⟩ := h.not_past hsome hlook hnot
  exact absurd (eq_noEntry_of_reaches hold hcheck hreach hout) he

/-- Where the way of the path comes to something that is different without the temporary entry, it
ends there, at another name of the temporary file. -/
theorem OpensAt.endsAt_of_differs (h : OpensAt path t l) (ho : Opened t u l x content)
    (hpath : ¬ t.LeadsToEntry path (temporary path)) (hold : entriesAt t path = .ok old)
    (hcheck : Path.check path = .ok ()) {r : Position} {m : Location}
    (hreach : t.Reaches (t.origin path) r) (hlook : r.LooksAt m)
    (hdiffer : (u.erase l).node? m ≠ t.node? m) :
    t.SameFile l m ∧ r.EndsAt m ∧ ∃ content, t.node? m = some (.file content) := by
  have hne : m ≠ l := by
    intro heq
    rw [heq, node?_erase_self h.ne_nil] at hdiffer
    exact h.ne_of_looksAt hpath hold hcheck hdiffer.symm hreach hlook heq
  obtain heq | hdiffer := eq_or_differs_of_erase hdiffer
  · exact absurd heq hne
  obtain ⟨hsame, hnone | ⟨content, hfile⟩⟩ := ho.differs hdiffer
  · exact absurd hnone (hsame.symm.node?_ne_none hne)
  obtain hends | hout := endsAt_of_file hlook hfile
  · exact ⟨hsame, hends, content, hfile⟩
  · exact absurd (eq_noEntry_of_reaches hold hcheck hreach hout) (by decide)

/-- Without the temporary entry, the path leads where it led. -/
theorem OpensAt.entriesAt_erase (h : OpensAt path t l) (ho : Opened t u l x content)
    (hpath : ¬ t.LeadsToEntry path (temporary path)) (htwo : ¬ TwoNames path t)
    (hold : entriesAt t path = .ok old) : entriesAt (u.erase l) path = .ok old := by
  cases hcheck : Path.check path with
  | error reason =>
    rw [entriesAt, Tree.read, find_of_check .content hcheck] at hold ⊢
    exact hold
  | ok _ =>
    obtain hsame | ⟨r, m, hreach, hlook, hdiffer⟩ :=
      lookUp_congr (t := t) (u.erase l) (t.origin path)
    · have hhome : (u.erase l).home = t.home := ho.home
      rw [entriesAt, Tree.read, find_congr hhome hsame]
      exact hold
    · obtain ⟨hsame, hends, content, hfile⟩ :=
        h.endsAt_of_differs ho hpath hold hcheck hreach hlook hdiffer
      have hfind := (find_eq .content hcheck).trans
        ((lookUp_of_reaches hreach).trans (lookUp_file hends hfile))
      have hentry := h.find_entry_self
      rw [hsame.node?_eq, hfile] at hentry
      exact absurd ⟨m, l, content, hfind, hentry, hsame⟩ htwo

/-- Where the temporary entry is a second name of the catalog, the catalog holds what was
written. -/
theorem OpensAt.read_erase (h : OpensAt path t l) (ho : Opened t u l x content)
    (hpath : ¬ t.LeadsToEntry path (temporary path)) (htwo : TwoNames path t)
    (hold : entriesAt t path = .ok old) : (u.erase l).read path = .ok content := by
  obtain ⟨d, m, before, hfind, hfind', hsame⟩ := htwo
  obtain ⟨rfl, hentry⟩ := place_unique h.find_entry_self hfind'
  obtain ⟨hcheck, hlookUp⟩ := lookUp_of_find hfind
  obtain ⟨-, -, r, hreach, hr⟩ := node?_of_lookUp hlookUp nofun
  have hlook : r.LooksAt d := by
    obtain ⟨name, hnames, hname, hd⟩ := hr
    exact ⟨name, [], hnames, hname, hd⟩
  have hne : d ≠ l := h.ne_of_looksAt hpath hold hcheck (by rw [hentry]; nofun) hreach hlook
  -- The way to the catalog meets nothing that is different before its end.
  have hreach' : (u.erase l).Reaches (t.origin path) r := by
    obtain hreach' | ⟨r', m, hr', hafter, hrest, hlook', hdiffer⟩ := hreach.congr (u.erase l)
    · exact hreach'
    obtain ⟨-, -, old, hfile⟩ := h.endsAt_of_differs ho hpath hold hcheck hr' hlook' hdiffer
    obtain rfl | ⟨s, hstep, -⟩ := hrest.cases_head
    · exact hafter
    · exact absurd hstep (not_step_of_node hlook' (by rw [hfile]; nofun) (by rw [hfile]; nofun))
  have hcontent : (u.erase l).node? d = some (.file content) := by
    rw [node?_erase_of_ne hne]
    cases ho with
    | file hx takes filled => exact filled.content d hsame
    | device kind same hx keeps => exact absurd (.inr ⟨before, hentry⟩) keeps
  have hhome : (u.erase l).home = t.home := ho.home
  rw [Tree.read, find_eq .content hcheck, origin_eq_of_home hhome, lookUp_of_reaches hreach',
    lookUp_file hr hcontent]
  rfl

theorem OpensAt.noTemporary_erase (h : OpensAt path t l) (ho : Opened t u l x content) :
    NoTemporary path (u.erase l) := by
  have hdead : ∀ m, (u.erase l).node? m ≠ t.node? m → t.DeadEnd m := by
    intro m hm
    obtain rfl | hm := eq_or_differs_of_erase hm
    · exact h.deadEnd
    · exact ho.deadEnd hm
  have hentry := h.find_entry (u := u.erase l) ho.home hdead
  rw [node?_erase_self h.ne_nil] at hentry
  exact ⟨l, hentry⟩

/-- What a batch leaves that was given up with a content written. -/
structure GivenUp (path : String) (t v : Tree) (old : TextSet) (content : ByteArray) : Prop where
  intact : ¬ TwoNames path t → entriesAt v path = .ok old
  overwritten : TwoNames path t → v.read path = .ok content
  gone : NoTemporary path v

/-- Whatever a batch is given up for, it is given up while the temporary file is open. -/
theorem OpensAt.givenUp_of_abandon (h : OpensAt path t l) (ho : Opened t u l x content)
    (hpath : ¬ t.LeadsToEntry path (temporary path)) (hold : entriesAt t path = .ok old)
    {e reason : Trouble} {events : List Event}
    (habandon : (abandon path e u : Outcome Tree Trouble α) = ⟨.error reason, v, events⟩) :
    GivenUp path t v old content := by
  rw [abandon_of_opened h ho] at habandon
  cases habandon
  exact ⟨fun htwo => h.entriesAt_erase ho hpath htwo hold,
    fun htwo => h.read_erase ho hpath htwo hold, h.noTemporary_erase ho⟩

theorem givenUp_of_writeUnder (hlink : ¬ LinksToFile t (temporary path))
    (hpath : ¬ t.LeadsToEntry path (temporary path)) (hold : entriesAt t path = .ok old)
    {reason : Trouble} {events : List Event}
    (hwrite : writeUnder R path entries t = ⟨.error reason, v, events⟩) :
    let opens := ∃ opened, refused R.creating (t.create (temporary path)) = .ok opened
    ¬ opens ∧ v = t ∨ opens ∧ GivenUp path t v old (R.written entries) := by
  unfold writeUnder at hwrite
  split at hwrite
  · rename_i hcreate
    cases hwrite
    refine .inl ⟨?_, rfl⟩
    rintro ⟨opened, hopened⟩
    cases hcreate.symm.trans hopened
  rename_i x opened hcreate
  obtain ⟨l, hopens, hopened⟩ := exists_opensAt hlink (ok_of_refused hcreate)
  obtain ⟨hstored, hleft⟩ := hopened.of_storeUnder (R := R) entries
  refine .inr ⟨⟨_, hcreate⟩, ?_⟩
  split at hwrite
  · rename_i hstore
    exact hopens.givenUp_of_abandon (hleft _ _ hstore) hpath hold hwrite
  rename_i stored hstore
  split at hwrite
  · exact hopens.givenUp_of_abandon (hstored _ hstore) hpath hold hwrite
  · cases hwrite

theorem entriesAt_of_entriesUnder (h : entriesUnder R t path = .ok old) :
    entriesAt t path = .ok old := by
  unfold entriesUnder at h
  split at h
  · cases h
  · exact h

theorem givenUp_of_updateUnder (hlink : ¬ LinksToFile t (temporary path))
    (hpath : ¬ t.LeadsToEntry path (temporary path)) {f : TextSet → TextSet} {reason : Trouble}
    {events : List Event} (hupdate : updateUnder R path f t = ⟨.error reason, v, events⟩) :
    ¬ R.Opens ⟨path, t⟩ ∧ v = t ∨
      ∃ old, R.Opens ⟨path, t⟩ ∧ entriesAt t path = .ok old ∧
        GivenUp path t v old (R.written (f old)) := by
  unfold updateUnder at hupdate
  split at hupdate
  · rename_i hread
    cases hupdate
    refine .inl ⟨?_, rfl⟩
    rintro ⟨⟨old, hold⟩, -⟩
    cases hread.symm.trans hold
  · rename_i old hread
    have hold := entriesAt_of_entriesUnder hread
    obtain ⟨hclosed, hsame⟩ | ⟨hopens, hgiven⟩ := givenUp_of_writeUnder hlink hpath hold hupdate
    · exact .inl ⟨fun hopens => hclosed hopens.2, hsame⟩
    · exact .inr ⟨old, ⟨⟨old, hread⟩, hopens⟩, hold, hgiven⟩

/-! ### The batch -/

/-- A batch that fails, at whichever step and for whatever reason, changes nothing before it opens
its temporary file. After that it leaves what is read as it was, and no temporary file; but where
that was a second name of the catalog, the catalog holds what was written. The temporary path must
be no link through which another file is opened, and the path must not be read through the temporary
entry. -/
theorem intact_after_failure (R : Refusals) (b : Batch) (c : FileCatalog)
    (hlink : ¬ LinksToFile c.files (temporary c.path))
    (hpath : ¬ c.files.LeadsToEntry c.path (temporary c.path))
    (hfailed : (changeUnder R b.apply c).answer ≠ .ok ()) :
    let after := (changeUnder R b.apply c).state
    after.path = c.path ∧ (¬ R.Opens c → after = c) ∧
      (¬ TwoNames c.path c.files → (load after).answer = (load c).answer) ∧
      (R.Opens c → NoTemporary c.path after.files) ∧
      (R.Opens c → TwoNames c.path c.files → ∃ old, (load c).answer = .ok old ∧
        after.files.read c.path = .ok (R.written (b.apply old))) ∧
      (changeUnder .empty b.apply : Call FileCatalog _ _) = b.call := by
  intro after
  have hbatch := (changeUnder_empty b.apply).trans (Batch.call_eq_change b).symm
  have hgiven : ¬ R.Opens c ∧ after = c ∨
      ∃ old, R.Opens c ∧ entriesAt c.files c.path = .ok old ∧
        GivenUp c.path c.files after.files old (R.written (b.apply old)) := by
    unfold changeUnder at hfailed
    dsimp only at hfailed
    cases hanswer : (updateUnder R c.path b.apply c.files).answer with
    | error reason =>
      obtain ⟨hclosed, hsame⟩ | hgiven := givenUp_of_updateUnder hlink hpath
        (show updateUnder R c.path b.apply c.files = ⟨_, _, _⟩ by rw [← hanswer])
      · exact .inl ⟨hclosed, congrArg (FileCatalog.mk c.path) hsame⟩
      · exact .inr hgiven
    | ok u =>
      rw [hanswer] at hfailed
      exact absurd rfl hfailed
  obtain ⟨hclosed, hsame⟩ | ⟨old, hopens, hold, hgiven⟩ := hgiven
  · exact ⟨rfl, fun _ => hsame, fun _ => by rw [hsame], fun hopens => absurd hopens hclosed,
      fun hopens => absurd hopens hclosed, hbatch⟩
  have hload : (load c).answer = .ok old := by
    rw [load, hold]
    rfl
  refine ⟨rfl, fun hclosed => absurd hopens hclosed, fun htwo => ?_, fun _ => hgiven.gone,
    fun _ htwo => ⟨old, hload, hgiven.overwritten htwo⟩, hbatch⟩
  rw [hload]
  show (entriesAt after.files c.path).mapError (failure c.path) = _
  rw [hgiven.intact htwo]
  rfl

/-- The temporary path is a second name of the catalog. Where nothing can be written, opening it has
emptied the catalog, which is not read any more. -/
theorem second_name_emptied :
    let files := (Tree.fresh.put ["work", "catalog.json"] (.file "[\"a\"]".toUTF8)).share
      ["work", "catalog.json"] ["work", "catalog.json.tmp"]
    let c : FileCatalog := ⟨"catalog.json", files⟩
    let R : Refusals := { Refusals.empty with writing := some (.empty, .noSpace) }
    let out := changeUnder R (Batch.add (TextSet.ofList ["b"])).apply c
    ¬ LinksToFile files (temporary "catalog.json") ∧
      ¬ files.LeadsToEntry "catalog.json" (temporary "catalog.json") ∧
      (load c).answer = .ok (TextSet.ofList ["a"]) ∧
      out.answer = .error (failure "catalog.json" (.writing .noSpace)) ∧
      (load out.state).answer = .error (failure "catalog.json" .parsing) := by
  intro files c R out
  have hlink : ¬ LinksToFile files (temporary "catalog.json") := by
    rintro ⟨l, target, m, node, hentry, -⟩
    cases hentry
  have hpath : ¬ files.LeadsToEntry "catalog.json" (temporary "catalog.json") :=
    not_leadsToEntry (l := ["work", "catalog.json"]) (m := ["work", "catalog.json.tmp"])
      rfl ⟨nofun, nofun⟩ rfl (by decide)
  exact ⟨hlink, hpath, by decide +kernel, by decide +kernel, by decide +kernel⟩

/-- The temporary path is a link to a device that has no room. -/
theorem intact_after_full_device :
    let files := (Tree.fresh.put ["work", "catalog.json"] (.file "[\"post:old\"]".toUTF8)).put
      ["work", "catalog.json.tmp"] (.link "/dev/full")
    let c : FileCatalog := ⟨"catalog.json", files⟩
    let b : Batch := .add (TextSet.ofList ["post:delete"])
    let after := (b.call c).state
    (b.call c).answer = .error (failure "catalog.json" (.writing .noSpace)) ∧
      (load after).answer = .ok (TextSet.ofList ["post:old"]) ∧
      NoTemporary "catalog.json" after.files := by
  intro files c b after
  have hanswer : (b.call c).answer = .error (failure "catalog.json" (.writing .noSpace)) := by
    decide +kernel
  have hload : (load c).answer = .ok (TextSet.ofList ["post:old"]) := by decide +kernel
  have hlink : ¬ LinksToFile files (temporary "catalog.json") := by
    rintro ⟨l, target, m, node, -, hcontent, hnode⟩
    have hdevice : files.find .content (temporary "catalog.json") =
        .ok ⟨["dev", "full"], some (.device .full)⟩ := rfl
    cases hdevice.symm.trans hcontent
    rcases hnode with hnone | ⟨_, hfile⟩
    · cases hnone
    · cases hfile
  have hpath : ¬ files.LeadsToEntry "catalog.json" (temporary "catalog.json") :=
    not_leadsToEntry (l := ["work", "catalog.json"]) (m := ["work", "catalog.json.tmp"])
      rfl ⟨nofun, nofun⟩ rfl (by decide)
  have hcall : (changeUnder .empty b.apply : Call FileCatalog _ _) = b.call :=
    (changeUnder_empty b.apply).trans (Batch.call_eq_change b).symm
  have hfailed : (changeUnder .empty b.apply c).answer ≠ .ok () := by
    rw [hcall, hanswer]
    nofun
  have htwo : ¬ TwoNames "catalog.json" files := by
    rintro ⟨l, m, content, -, hfile, -⟩
    have hentry : files.find .entry (temporary "catalog.json") =
        .ok ⟨["work", "catalog.json.tmp"], some (.link "/dev/full")⟩ := rfl
    cases hentry.symm.trans hfile
  obtain ⟨-, -, hsame, hgone, -⟩ := intact_after_failure .empty b c hlink hpath hfailed
  rw [hcall] at hsame hgone
  have hold : entriesAt files "catalog.json" = .ok (TextSet.ofList ["post:old"]) := by
    decide +kernel
  have hcreate : files.create (temporary "catalog.json") = .ok (["dev", "full"], files) := by
    decide +kernel
  have hopens : Refusals.empty.Opens c := ⟨⟨_, hold⟩, _, hcreate⟩
  exact ⟨hanswer, (hsame htwo).trans hload, hgone hopens⟩

end Warrant.FileCatalog
