import Warrant.Proofs.Catalog.Batch

/-!
# What is in the file of a catalog

A set has one text, which is what is written for it, and the file is read as the set then
(`HoldsText`). Of the many texts that are read as a set, the first batch makes that one, and a batch
that adds nothing leaves it (`canonical_and_lossless`). A file that is not read stays as it is.
-/

namespace Warrant.FileCatalog

open Files Files.Tree Json

variable {path : String} {t u v : Tree} {entries old s : TextSet} {l x : Location} {n : Node}
  {node : Option Node} {content : ByteArray} {init : List String} {q : Position} {last : String}
  {c : FileCatalog}

/-! ### Where a catalog can be written -/

/-- The path and the temporary path lead to files or to free places, by links or not, and the
temporary one not by way of the entry of the catalog. -/
structure Writable (path : String) (t : Tree) : Prop where
  catalog : ∃ l node, t.find .content path = .ok ⟨l, node⟩ ∧ TakesFile node
  temporary : ∃ x node, t.find .creation (FileCatalog.temporary path) = .ok ⟨x, node⟩ ∧
    TakesFile node
  apart : ¬ t.LeadsToEntry (FileCatalog.temporary path) path

theorem Writable.checked_temporary (h : Writable path t) :
    Path.check (FileCatalog.temporary path) = .ok () := by
  obtain ⟨x, node, hfind, -⟩ := h.temporary
  exact (lookUp_of_find hfind).1

/-- Where a file or nothing is at the temporary entry itself, that is apart from the catalog. -/
theorem writable_of_entry (hcatalog : t.find .content path = .ok ⟨l, node⟩)
    (hnode : TakesFile node) {node' : Option Node}
    (htemporary : t.find .entry (temporary path) = .ok ⟨x, node'⟩) (hnode' : TakesFile node') :
    Writable path t := by
  have hcheck := (lookUp_of_find hcatalog).1
  have hcheck' := (lookUp_of_find htemporary).1
  obtain ⟨init, q, last, hstands, hstands'⟩ :=
    exists_stands_of_finds htemporary hnode'.ne_directory hcatalog hnode.ne_directory
  obtain ⟨-, rfl⟩ := place_unique (hstands'.find_entry hcheck') htemporary
  refine ⟨⟨l, node, hcatalog, hnode⟩, ⟨_, _, hstands'.find_of_node hcheck' hnode'.ne_directory
    hnode'.ne_link .creation, hnode'⟩, fun hleads => ?_⟩
  rw [hstands.leadsToEntry_iff hcheck] at hleads
  exact temporary_ne q.here last
    (hstands'.eq_of_leadsTo hnode'.ne_directory hnode'.ne_link hleads)

theorem exists_opened (h : t.Stands path init q last)
    (hopened : t.lookUp .content (t.origin path) = .ok ⟨x, node⟩) (hnode : TakesFile node)
    (hfilled : t.Filled u x content) : ∃ n, u.node? (q.here ++ [last]) = some n := by
  by_cases hlink : ∃ target, t.node? (q.here ++ [last]) = some (.link target)
  · obtain ⟨target, hlink⟩ := hlink
    have hx := (node?_of_lookUp hopened hnode.ne_directory).1
    have hother : ¬ t.SameFile x (q.here ++ [last]) := fun hsame =>
      hnode.ne_link target (hx.symm.trans (hsame.node?_eq.trans hlink))
    exact ⟨_, (hfilled.others _ hother).trans hlink⟩
  · rw [h.lookUp] at hopened
    obtain rfl := location_of_lookUp h.entry hopened hnode.ne_directory (not_exists.1 hlink)
    exact ⟨_, hfilled.content_self⟩

theorem writeAt_of_writable (h : Writable path t) (entries : TextSet) :
    ∃ v, writeAt path entries t = ⟨.ok (), v, [.catalogWritten path entries.size]⟩ := by
  obtain ⟨l, node, hcatalog, hnode⟩ := h.catalog
  obtain ⟨x, node', htemporary, hnode'⟩ := h.temporary
  obtain ⟨hcheck, hread⟩ := lookUp_of_find hcatalog
  obtain ⟨hcheck', hcreation⟩ := lookUp_of_find htemporary
  have hopened := lookUp_content_of_creation hcreation
  obtain ⟨init, q, last, hstands, hstands'⟩ :=
    exists_stands_of_finds htemporary hnode'.ne_directory hcatalog hnode.ne_directory
  have hx : t.node? x = node' := (node?_of_lookUp hopened hnode'.ne_directory).1
  obtain ⟨opened, hcreate, hempty⟩ := exists_filled_of_create htemporary hnode' hx
  generalize hbytes : (Catalog.Document.encode entries).toUTF8 = bytes
  have hfilled : t.Filled (opened.fill x bytes) x bytes := hempty.fill
  have hdead : ∀ m, (opened.fill x bytes).node? m ≠ t.node? m → t.DeadEnd m := by
    intro m hm
    have htakes : TakesFile (t.node? m) := (hfilled.differs hm).node?_eq ▸ hx ▸ hnode'
    exact deadEnd_of_node htakes.ne_directory htakes.ne_link
  -- Both paths stand where they did, and the move takes the one entry to the other.
  obtain ⟨n, hn⟩ := exists_opened hstands' hopened hnode' hfilled
  have hsource := (hstands'.of_deadEnds hfilled.home hdead).find_entry hcheck'
  have htarget := (hstands.of_deadEnds hfilled.home hdead).find_entry hcheck
  have hdir : (opened.fill x bytes).node? (q.here ++ [last]) ≠ some .directory := by
    by_cases hsame : t.SameFile x (q.here ++ [last])
    · rw [hfilled.content _ hsame]
      nofun
    · rw [hfilled.others _ hsame]
      exact (hstands.deadEnd_of_lookUp hread hnode.ne_directory).ne_directory hstands.entry
  rw [hn] at hsource
  have hrename := rename_of_finds hsource htarget hdir
  refine ⟨(opened.fill x bytes).move (q.here ++ [last ++ ".tmp"]) (q.here ++ [last]), ?_⟩
  rw [writeAt, hcreate]
  dsimp only
  rw [hbytes, store_of_filled bytes hempty]
  dsimp only
  rw [hrename]

/-! ### What is written -/

structure HoldsText (path : String) (t : Tree) (s : TextSet) : Prop where
  bytes : t.read path = .ok (Catalog.Document.encode s).toUTF8
  loaded : load ⟨path, t⟩ = ⟨.ok s, ⟨path, t⟩, []⟩

theorem holdsText_of_find
    (h : t.find .content path = .ok ⟨l, some (.file (Catalog.Document.encode s).toUTF8)⟩) :
    HoldsText path t s := by
  constructor
  · rw [Tree.read, h]
    rfl
  · rw [load, entriesAt_of_file h]
    rfl

/-- What is written can be written again: the temporary entry is free, or it is what it was. -/
theorem Written.writable (h : Written path t v init q last x content) (hbefore : Writable path t)
    (hfind : v.find .content path = .ok ⟨l, some (.file content)⟩) : Writable path v := by
  by_cases hsame : t.SameFile (q.here ++ [last ++ ".tmp"]) (q.here ++ [last])
  · have hfilled := h.kept hsame
    have hways := h.sameWays hfilled
    obtain ⟨y, node, htemporary, hnode⟩ := hbefore.temporary
    have hafter := hways.find htemporary hnode.ne_directory
    have hcontent := lookUp_content_of_creation (lookUp_of_find htemporary).2
    obtain ⟨node', hopened, -⟩ := h.opened
    obtain ⟨rfl, -⟩ := place_unique hcontent hopened
    rw [hfilled.content_self] at hafter
    refine ⟨⟨l, _, hfind, .inr ⟨_, rfl⟩⟩, ⟨y, _, hafter, .inr ⟨_, rfl⟩⟩, fun hleads => ?_⟩
    rw [h.stands.leadsToEntry_iff h.checked] at hleads
    exact hbefore.apart ((h.catalog.leadsToEntry_iff h.checked).2 (hways.symm.leadsTo hleads))
  · have hgone := h.stands_temporary.find_entry hbefore.checked_temporary
    rw [h.removed hsame] at hgone
    exact writable_of_entry hfind (.inr ⟨_, rfl⟩) hgone (.inl rfl)

/-- What writing a set leaves: its text, and a place to write again. -/
structure Rewritten (path : String) (t v : Tree) (s : TextSet) : Prop where
  text : HoldsText path v s
  writable : Writable path v
  trees : ∃ init q last x, Written path t v init q last x (Catalog.Document.encode s).toUTF8

theorem exists_rewritten_of_writable (h : Writable path t) (entries : TextSet) :
    ∃ v, writeAt path entries t = ⟨.ok (), v, [.catalogWritten path entries.size]⟩ ∧
      Rewritten path t v entries := by
  obtain ⟨v, hwrite⟩ := writeAt_of_writable h entries
  obtain ⟨l, node, hcatalog, hnode⟩ := h.catalog
  have hread : Path.check path = .ok () →
      t.lookUp .content (t.origin path) ≠ .error .tooManyLinks ∧
        ∀ m, t.lookUp .content (t.origin path) ≠ .ok ⟨m, some .directory⟩ := by
    intro _
    rw [(lookUp_of_find hcatalog).2]
    refine ⟨nofun, fun m heq => ?_⟩
    exact hnode.ne_directory (congrArg Place.node (Except.ok.inj heq))
  obtain ⟨init, q, last, x, hwritten⟩ := exists_written_of_lookUp hread hwrite
  have hapart := (hwritten.catalog.leadsToEntry_iff hwritten.checked).not.1 h.apart
  obtain ⟨m, hfile⟩ := hwritten.lookUp_of_not_leadsTo hapart
  have hfind := hwritten.find.trans hfile
  exact ⟨v, hwrite, holdsText_of_find hfind, hwritten.writable h hfind, init, q, last, x, hwritten⟩

structure SameEntries (t u : Tree) : Prop where
  home : u.home = t.home
  node? : ∀ m, u.node? m = t.node? m

/-- Where the entry of the path is a file already, and the temporary one is free or a second name of
it, writing what the file holds changes no entry. -/
theorem Written.sameEntries {m : Location} (h : Written path t v init q last x content)
    (hcatalog : t.find .entry path = .ok ⟨l, some (.file content)⟩)
    (htemporary : t.find .entry (FileCatalog.temporary path) = .ok ⟨m, node⟩)
    (hnode : node = none ∨ t.SameFile m l) : SameEntries t v := by
  obtain ⟨rfl, hfile⟩ := place_unique (h.catalog.find_entry h.checked) hcatalog
  obtain ⟨rfl, rfl⟩ :=
    place_unique (h.temporary.find_entry (lookUp_of_find htemporary).1) htemporary
  have hlink : ∀ target, t.node? (q.here ++ [last ++ ".tmp"]) ≠ some (.link target) := by
    intro target hlink
    obtain hnone | hsame := hnode
    · cases hnone.symm.trans hlink
    · cases hfile.symm.trans (hsame.node?_eq.symm.trans hlink)
  obtain ⟨_, hopened, htakes⟩ := h.opened
  rw [h.temporary.lookUp] at hopened
  obtain rfl := location_of_lookUp h.temporary.entry hopened htakes.ne_directory hlink
  refine ⟨h.home, fun m => ?_⟩
  obtain hnone | hsame := hnode
  · -- The temporary file was new, so it has no other name.
    have hother : ∀ l, t.SameFile (q.here ++ [last ++ ".tmp"]) l → q.here ++ [last ++ ".tmp"] = l :=
      fun l hl => Classical.byContradiction fun hne => hl.node?_ne_none hne hnone
    refine Classical.byContradiction fun hm => ?_
    obtain rfl | hm' := h.others m hm
    · exact hm ((h.moved_file hlink).trans hfile.symm)
    obtain rfl : q.here ++ [last ++ ".tmp"] = m := hm'.elim Eq.symm (hother m)
    rw [hnone] at hm
    exact hm (h.removed fun hsame => temporary_ne q.here last (hother _ hsame).symm)
  · have hfilled := h.kept hsame
    by_cases hm : t.SameFile (q.here ++ [last ++ ".tmp"]) m
    · rw [hfilled.content m hm, ← hm.node?_eq, hsame.node?_eq, hfile]
    · exact hfilled.others m hm

/-! ### Batches -/

theorem load_answer (hread : c.files.read c.path = .ok content) :
    (load c).answer = match Catalog.Document.ofBytes? content with
      | some s => .ok s
      | none => .error (failure c.path .parsing) := by
  rw [load, entriesAt, hread]
  dsimp only
  cases Catalog.Document.ofBytes? content with
  | some s => rfl
  | none => rfl

theorem load_eq_ok_iff (hread : c.files.read c.path = .ok content) :
    (load c).answer = .ok s ↔ Catalog.Document.ofBytes? content = some s := by
  rw [load_answer hread]
  cases Catalog.Document.ofBytes? content with
  | some s => simp
  | none => simp

theorem entriesAt_of_load (h : (load c).answer = .ok s) : entriesAt c.files c.path = .ok s := by
  unfold load at h
  dsimp only at h
  cases hentries : entriesAt c.files c.path with
  | error e =>
    rw [hentries] at h
    cases h
  | ok old =>
    rw [hentries] at h
    cases h
    rfl

theorem change_of_load_error {e : Failure StoreError} (h : (load c).answer = .error e)
    (f : TextSet → TextSet) : change f c = ⟨.error e, c, []⟩ := by
  unfold load at h
  dsimp only at h
  cases hentries : entriesAt c.files c.path with
  | error reason =>
    rw [hentries] at h
    cases h
    rw [change, updateAt, hentries]
    rfl
  | ok old =>
    rw [hentries] at h
    cases h

theorem exists_changed (h : Writable c.path c.files) (hold : (load c).answer = .ok old)
    (f : TextSet → TextSet) :
    ∃ v, change f c = ⟨.ok (), ⟨c.path, v⟩, [.catalogWritten c.path (f old).size]⟩ ∧
      Rewritten c.path c.files v (f old) := by
  obtain ⟨v, hwrite, hrewritten⟩ := exists_rewritten_of_writable h (f old)
  refine ⟨v, ?_, hrewritten⟩
  rw [change, updateAt, entriesAt_of_load hold]
  dsimp only
  rw [hwrite]
  rfl

/-- Adding nothing leaves the text of the set, also the second time; where the temporary entry is no
link, the second time changes no entry. -/
theorem holdsText_after_empty_batch (h : Writable c.path c.files)
    (hload : (load c).answer = .ok s) :
    let nothing := Batch.add ∅
    ∃ v events v' events', nothing.call c = ⟨.ok (), ⟨c.path, v⟩, events⟩ ∧
      nothing.call (⟨c.path, v⟩ : FileCatalog) = ⟨.ok (), ⟨c.path, v'⟩, events'⟩ ∧
      HoldsText c.path v s ∧ HoldsText c.path v' s ∧
      ((∀ l target, c.files.find .entry (temporary c.path) ≠ .ok ⟨l, some (.link target)⟩) →
        SameEntries v v') := by
  obtain ⟨v, hfirst, hv⟩ := exists_changed h hload (· ∪ ∅)
  have hload' := congrArg Outcome.answer hv.text.loaded
  obtain ⟨v', hsecond, hv'⟩ := exists_changed (c := ⟨c.path, v⟩) hv.writable hload' (· ∪ ∅)
  refine ⟨v, _, v', _, hfirst, hsecond, hv.text, hv'.text, fun hlink => ?_⟩
  obtain ⟨init, q, last, x, hwritten⟩ := hv.trees
  obtain ⟨init', q', last', x', hwritten'⟩ := hv'.trees
  have hnolink : ∀ target, c.files.node? (q.here ++ [last ++ ".tmp"]) ≠ some (.link target) := by
    intro target htarget
    have hfind := hwritten.temporary.find_entry h.checked_temporary
    rw [htarget] at hfind
    exact hlink _ target hfind
  have hcatalog := hwritten.stands.find_entry hwritten.checked
  rw [hwritten.moved_file hnolink] at hcatalog
  have htemporary := hwritten.stands_temporary.find_entry h.checked_temporary
  refine hwritten'.sameEntries hcatalog htemporary ?_
  by_cases hsame : c.files.SameFile (q.here ++ [last ++ ".tmp"]) (q.here ++ [last])
  · exact .inr (((hwritten.kept hsame).sameFile _ _).2 hsame)
  · exact .inl (hwritten.removed hsame)

/-- The format of a catalog in a file. Two lists of texts have the same bytes just if they have the
same elements. Where a catalog can be written, whatever set is written is read as that set. A file
that cannot be read makes every batch fail, and stays as it is. The content of a file is read just
if it is an array of strings, however they are spelled and spaced; adding nothing keeps the set then
and leaves its bytes, and doing so again changes nothing. -/
theorem canonical_and_lossless (c : FileCatalog) :
    (∀ xs ys : List String,
      (Catalog.Document.encode (.ofList xs)).toUTF8 =
        (Catalog.Document.encode (.ofList ys)).toUTF8 ↔ ∀ x, x ∈ xs ↔ x ∈ ys) ∧
    (Writable c.path c.files → ∀ s, ∃ v events,
      writeAt c.path s c.files = ⟨.ok (), v, events⟩ ∧ HoldsText c.path v s) ∧
    (∀ e, (load c).answer = .error e → ∀ b : Batch, b.call c = ⟨.error e, c, []⟩) ∧
    ∀ content, c.files.read c.path = .ok content →
      (∀ s, (load c).answer = .ok s ↔ ∃ text ss, content = String.toUTF8 text ∧
        SpellsTexts text.toList ss ∧ s = .ofList ss) ∧
      ∀ s, (load c).answer = .ok s → Writable c.path c.files →
        let nothing := Batch.add ∅
        ∃ v events v' events', nothing.call c = ⟨.ok (), ⟨c.path, v⟩, events⟩ ∧
          nothing.call (⟨c.path, v⟩ : FileCatalog) = ⟨.ok (), ⟨c.path, v'⟩, events'⟩ ∧
          HoldsText c.path v s ∧ HoldsText c.path v' s ∧
          ((∀ l target, c.files.find .entry (temporary c.path) ≠ .ok ⟨l, some (.link target)⟩) →
            SameEntries v v') := by
  refine ⟨fun xs ys => ?_, fun h s => ?_, fun e he b => ?_, fun content hread =>
    ⟨fun s => ?_, fun s hload h => holdsText_after_empty_batch h hload⟩⟩
  · rw [Catalog.Document.encode_eq_iff, TextSet.ext_iff]
    simp only [TextSet.mem_ofList]
  · obtain ⟨v, hwrite, hrewritten⟩ := exists_rewritten_of_writable h s
    exact ⟨v, _, hwrite, hrewritten.text⟩
  · rw [Batch.call_eq_change]
    exact change_of_load_error he b.apply
  · rw [load_eq_ok_iff hread]
    exact Catalog.Document.ofBytes?_eq_some_iff

/-- A file that repeats an element, with escapes, a surrogate pair and blanks of all kinds, is
written anew, and one with a comma too many is left. -/
theorem rewritten_with_escapes :
    let messy := "[ \"\\u0062\",\r\n\t\"\\uD83D\\ude00\\/\" , \"b\"] "
    let holding (text : String) : FileCatalog :=
      ⟨"catalog.json", Tree.fresh.put ["work", "catalog.json"] (.file text.toUTF8)⟩
    let s := TextSet.ofList ["b", "😀/"]
    (∃ v events v' events',
      (Batch.add ∅).call (holding messy) = ⟨.ok (), ⟨"catalog.json", v⟩, events⟩ ∧
      (Batch.add ∅).call (⟨"catalog.json", v⟩ : FileCatalog) =
        ⟨.ok (), ⟨"catalog.json", v'⟩, events'⟩ ∧
      v.read "catalog.json" = .ok "[\n  \"b\",\n  \"😀/\"\n]".toUTF8 ∧
      HoldsText "catalog.json" v' s ∧ SameEntries v v') ∧
    (Batch.remove s).call (holding "[\"b\",]") =
      ⟨.error (failure "catalog.json" .parsing), holding "[\"b\",]", []⟩ := by
  intro messy holding s
  have hread : (holding messy).files.read "catalog.json" = .ok messy.toUTF8 := by decide +kernel
  have hload : (load (holding messy)).answer = .ok s := by decide +kernel
  have hrejected : (load (holding "[\"b\",]")).answer =
      .error (failure "catalog.json" .parsing) := by decide +kernel
  have hwritable : Writable "catalog.json" (holding messy).files :=
    writable_of_entry (l := ["work", "catalog.json"]) (x := ["work", "catalog.json.tmp"])
      rfl (.inr ⟨messy.toUTF8, rfl⟩) rfl (.inl rfl)
  obtain ⟨-, -, -, hformat⟩ := canonical_and_lossless (holding messy)
  obtain ⟨-, hformat⟩ := hformat _ hread
  obtain ⟨v, events, v', events', hfirst, hsecond, htext, htext', hsame⟩ :=
    hformat s hload hwritable
  obtain ⟨-, -, hleft, -⟩ := canonical_and_lossless (holding "[\"b\",]")
  refine ⟨⟨v, events, v', events', hfirst, hsecond, htext.bytes, htext', hsame ?_⟩,
    hleft _ hrejected (.remove s)⟩
  intro l target hlink
  have hfree : (holding messy).files.find .entry (temporary "catalog.json") =
      .ok ⟨["work", "catalog.json.tmp"], none⟩ := rfl
  cases hfree.symm.trans hlink

end Warrant.FileCatalog
