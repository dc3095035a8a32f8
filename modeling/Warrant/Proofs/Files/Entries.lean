import Mathlib.Data.List.Basic
import Warrant.Proofs.Except
import Warrant.Proofs.Files.Links

/-!
# Where the entry of a path is

The names of a path but the last lead to a directory, where the last is the name of an entry
(`Stands`). The path stands there in any tree that differs from this one in dead ends only
(`Stands.of_deadEnds`), and a path that differs in the last name stands in the same directory.
-/

namespace Warrant.Files.Tree

variable {t t' : Tree} {aim : Aim} {p q q' r : Position} {l here : Location} {k : Nat}
  {name last path other : String} {init names : List String} {node : Option Node}

/-! ### Dead ends -/

/-- A look-up that comes to the entry ends there, and with no directory, or fails. -/
def DeadEnd (t : Tree) (l : Location) : Prop :=
  ∀ p place, p.LooksAt l → t.lookUp .content p = .ok place →
    p.EndsAt l ∧ place.node ≠ some .directory

/-- Where one look-up that ends at an entry leads, another that looks at it does with what names it
has after it, unless it runs out of links. -/
theorem lookUp_of_looksAt (hp : p.EndsAt l) (hlinks : t.lookUp .content p ≠ .error .tooManyLinks)
    (hdir : ∀ m, t.lookUp .content p ≠ .ok ⟨m, some .directory⟩) (hr : r.LooksAt l) :
    t.lookUp .content r = .error .tooManyLinks ∨
      ∃ rest, t.lookUp .content r = beyond (t.lookUp .content p) rest ∧
        (rest = [] → r.EndsAt l) := by
  obtain ⟨links, d, names⟩ := p
  obtain ⟨links', here, names'⟩ := r
  obtain ⟨name, rfl, hname, rfl⟩ := hp
  obtain ⟨name', rest, rfl, -, hl⟩ := hr
  obtain ⟨rfl, hlast⟩ := List.append_inj' hl rfl
  obtain rfl := List.singleton_inj.1 hlast
  refine (lookUp_append hlinks hdir links' rest).imp_right fun hbeyond => ⟨rest, hbeyond, ?_⟩
  rintro rfl
  exact ⟨name, rfl, hname, rfl⟩

/-- Where one look-up that ends at the entry comes to an end, all look-ups do. -/
theorem deadEnd_of_endsAt (hp : p.EndsAt l)
    (hlinks : t.lookUp .content p ≠ .error .tooManyLinks)
    (hdir : ∀ m, t.lookUp .content p ≠ .ok ⟨m, some .directory⟩) : t.DeadEnd l := by
  intro r place hr hplace
  obtain hout | ⟨rest, hbeyond, hrest⟩ := lookUp_of_looksAt hp hlinks hdir hr
  · cases hplace.symm.trans hout
  have hbeyond := hplace.symm.trans hbeyond
  cases ho : t.lookUp .content p with
  | error e =>
    rw [ho] at hbeyond
    cases hbeyond
  | ok found =>
    obtain ⟨m, node⟩ := found
    rw [ho, beyond, leaf] at hbeyond
    split at hbeyond
    · rename_i hnil
      cases hbeyond
      exact ⟨hrest hnil, fun h => hdir m (by rw [ho, ← h])⟩
    · cases hbeyond

theorem deadEnd_of_node (hdir : t.node? l ≠ some .directory)
    (hlink : ∀ target, t.node? l ≠ some (.link target)) : t.DeadEnd l := by
  rintro ⟨links, here, names⟩ place ⟨name, rest, rfl, hname, rfl⟩ hplace
  have hend : t.End ⟨links, here, name :: rest⟩ _ := .leaf hname hdir hlink
  have hleaf := hplace.symm.trans hend.lookUp_content
  unfold leaf at hleaf
  split at hleaf
  · rename_i hrest
    cases hrest
    cases hleaf
    exact ⟨⟨name, rfl, hname, rfl⟩, hdir⟩
  · cases hleaf

theorem DeadEnd.ne_directory (h : t.DeadEnd (here ++ [name])) (hname : IsEntryName name) :
    t.node? (here ++ [name]) ≠ some .directory := by
  intro hdir
  have hstep : t.Step ⟨0, here, [name]⟩ ⟨0, here ++ [name], []⟩ := .down hname hdir
  have hplace := hstep.lookUp_content.trans End.arrived.lookUp_content
  exact (h _ _ ⟨name, [], rfl, hname, rfl⟩ hplace).2 rfl

theorem not_step_of_node (hp : p.LooksAt l) (hdir : t.node? l ≠ some .directory)
    (hlink : ∀ target, t.node? l ≠ some (.link target)) : ¬ t.Step p q := by
  obtain ⟨name, rest, hnames, hname, rfl⟩ := hp
  intro hstep
  cases hstep <;> simp_all [IsEntryName]

theorem lookUp_file {content : ByteArray} (hp : p.EndsAt l)
    (hfile : t.node? l = some (.file content)) :
    t.lookUp .content p = .ok ⟨l, some (.file content)⟩ := by
  obtain ⟨links, here, names⟩ := p
  obtain ⟨name, rfl, hname, rfl⟩ := hp
  rw [lookUp_entry hname, if_neg nofun, hfile]
  rfl

theorem endsAt_of_file {content : ByteArray} (hp : p.LooksAt l)
    (hfile : t.node? l = some (.file content)) :
    p.EndsAt l ∨ t.lookUp .content p = .error .notDirectory := by
  obtain ⟨links, here, names⟩ := p
  obtain ⟨name, rest, rfl, hname, rfl⟩ := hp
  by_cases hrest : rest = []
  · exact .inl ⟨name, congrArg (name :: ·) hrest, hname, rfl⟩
  · right
    rw [lookUp_entry hname, if_neg nofun, hfile]
    exact if_neg hrest

theorem location_of_lookUp (hname : IsEntryName name)
    (h : t.lookUp .content ⟨k, here, [name]⟩ = .ok ⟨l, node⟩) (hnode : node ≠ some .directory)
    (hlink : ∀ target, t.node? (here ++ [name]) ≠ some (.link target)) : l = here ++ [name] := by
  rw [lookUp_entry hname, if_neg nofun] at h
  split at h
  · rw [End.arrived.lookUp_content] at h
    cases h
    exact absurd rfl hnode
  · rename_i hnode
    exact absurd hnode (hlink _)
  · cases h
    rfl

theorem Reaches.of_deadEnds (h : t.Reaches p q) (hq : q.names = [])
    (hdead : ∀ l, t'.node? l ≠ t.node? l → t.DeadEnd l) : t'.Reaches p q := by
  obtain hreach | ⟨r, l, -, -, hrq, hlook, hdiffer⟩ := h.congr t'
  · exact hreach
  · obtain ⟨links, here, names⟩ := q
    obtain rfl : names = [] := hq
    have hdirectory := (lookUp_of_reaches hrq).trans End.arrived.lookUp_content
    exact absurd rfl (hdead l hdiffer r _ hlook hdirectory).2

theorem End.endsAt (h : t.End p (.ok ⟨l, node⟩)) (hnode : node ≠ some .directory) :
    p.EndsAt l ∧ t.node? l = node ∧ ∀ target, node ≠ some (.link target) := by
  generalize ho : (.ok ⟨l, node⟩ : Except Fault Place) = o at h
  cases h with
  | arrived =>
    cases ho
    exact absurd rfl hnode
  | tooLong _ _ _ => cases ho
  | outOfLinks _ _ => cases ho
  | @leaf k here name rest hname hdir hlink =>
    unfold Tree.leaf at ho
    split at ho
    · rename_i hrest
      cases ho
      exact ⟨⟨name, by rw [hrest], hname, rfl⟩, rfl, hlink⟩
    · cases ho

/-! ### The last name -/

theorem Step.unique (h : t.Step p q) (h' : t.Step p q') : q = q' := by
  cases h <;> cases h' <;> simp_all [IsEntryName]

/-- A step that leaves more than the last name is one of the names before it. -/
theorem Step.of_followedBy (h : t.Step p q) (hq : q.names = init ++ [last]) :
    (∃ l, p.EndsAt l) ∨ ∃ init', p.names = init' ++ [last] ∧
      t.Step { p with names := init' } { q with names := init } := by
  cases h with
  | @stay k here name rest hname =>
    obtain rfl : rest = init ++ [last] := hq
    exact .inr ⟨name :: init, rfl, .stay hname⟩
  | @up k here rest =>
    obtain rfl : rest = init ++ [last] := hq
    exact .inr ⟨".." :: init, rfl, .up⟩
  | @down k here name rest hname hdir =>
    obtain rfl : rest = init ++ [last] := hq
    exact .inr ⟨name :: init, rfl, .down hname hdir⟩
  | @follow k here name target rest hname hlink =>
    obtain rfl | ⟨rest, last', rfl⟩ := List.eq_nil_or_concat' rest
    · exact .inl ⟨_, name, rfl, hname, rfl⟩
    · have hsplit : (Path.names target ++ rest) ++ [last'] = init ++ [last] := by
        rw [List.append_assoc]
        exact hq
      obtain ⟨rfl, hlast⟩ := List.append_inj' hsplit rfl
      obtain rfl := List.singleton_inj.1 hlast
      exact .inr ⟨name :: rest, rfl, .follow hname hlink⟩

/-- A look-up that leads to no directory has a last name, and the names before it lead to one. -/
theorem exists_directory_of_lookUp (h : t.lookUp aim p = .ok ⟨l, node⟩)
    (hnode : node ≠ some .directory) :
    ∃ init last q, p.names = init ++ [last] ∧ IsEntryName last ∧
      t.Reaches { p with names := init } q ∧ q.names = [] := by
  induction p using step_induction (t := t) with
  | step p ih =>
    -- A single name, be it that of a link, is the last one itself.
    have hends : ∀ m, p.EndsAt m → ∃ init last q, p.names = init ++ [last] ∧ IsEntryName last ∧
        t.Reaches { p with names := init } q ∧ q.names = [] := by
      rintro m ⟨name, hnames, hname, -⟩
      exact ⟨[], name, _, hnames, hname, .refl t _, rfl⟩
    obtain ⟨q, hstep⟩ | ⟨o, hend⟩ := t.step_or_end p
    · obtain hq | ⟨-, m, hm⟩ := (hstep.comesTo aim).of_ok h
      · obtain ⟨init, last, r, hnames, hlast, hreach, hr⟩ := ih q hstep hq
        obtain ⟨m, hm⟩ | ⟨init', hnames', hstep'⟩ := hstep.of_followedBy hnames
        · exact hends m hm
        · exact ⟨init', last, r, hnames', hlast, hreach.head hstep', hr⟩
      · exact hends m hm
    · obtain rfl | ⟨-, m, hm⟩ := (hend.comesTo aim).of_ok h
      · exact hends l (hend.endsAt hnode).1
      · exact hends m hm

/-- What a way through more names passes is on the way through the first names, or after it. -/
theorem Reaches.of_followedBy (h : t.Reaches p q) (h' : t.Reaches (p.followedBy names) r) :
    (∃ r', r = r'.followedBy names ∧ t.Reaches r' q) ∨ t.Reaches (q.followedBy names) r := by
  induction h using Relation.ReflTransGen.head_induction_on with
  | refl => exact .inr h'
  | @head p s hstep hrest ih =>
    obtain rfl | ⟨s', hstep', hr⟩ := h'.cases_head
    · exact .inl ⟨p, rfl, hrest.head hstep⟩
    · obtain rfl := (hstep.followedBy names).unique hstep'
      exact ih hr

/-- Where names lead to a directory, one more name stands for an entry in it: the only one with no
name after it, unless a step leads on from there. -/
theorem Reaches.of_last (h : t.Reaches p q) (hq : q.names = [])
    (h' : t.Reaches (p.followedBy [last]) r) (hr : r.EndsAt l) :
    l = q.here ++ [last] ∨ ∃ s, t.Step (q.followedBy [last]) s ∧ t.Reaches s r := by
  have hlast : ∀ s : Position, s.names = [] → (s.followedBy [last]).EndsAt l →
      l = s.here ++ [last] := by
    rintro s hs ⟨name, hnames, -, rfl⟩
    rw [Position.followedBy, hs, List.nil_append] at hnames
    rw [← List.singleton_inj.1 hnames]
    rfl
  obtain ⟨r', rfl, hreach⟩ | hreach := h.of_followedBy h'
  · left
    have hr' : r'.names = [] := by
      obtain ⟨name, hnames, -⟩ := hr
      have hlength := congrArg List.length hnames
      rw [Position.followedBy, List.length_append] at hlength
      exact List.length_eq_zero_iff.1 (Nat.succ.inj hlength)
    obtain rfl | ⟨s, hstep, -⟩ := hreach.cases_head
    · exact hlast r' hr' hr
    · cases hstep <;> cases hr'
  · obtain rfl | ⟨s, hstep, hrest⟩ := hreach.cases_head
    · exact .inl (hlast q hq hr)
    · exact .inr ⟨s, hstep, hrest⟩

/-! ### Paths -/

def origin (t : Tree) (path : String) : Position := ⟨maxLinks, t.start path, Path.names path⟩

/-- The path, or a link that it leads to, stands for the entry. -/
def LeadsTo (t : Tree) (path : String) (l : Location) : Prop :=
  ∃ q, t.Reaches (t.origin path) q ∧ q.EndsAt l

/-- The path, or a link that it leads to, stands for the entry that another path stands for. -/
def LeadsToEntry (t : Tree) (path other : String) : Prop :=
  ∃ l node, t.find .entry other = .ok ⟨l, node⟩ ∧ t.LeadsTo path l

/-- The names of the path but the last lead to a directory, and the last is the name of an entry. -/
structure Stands (t : Tree) (path : String) (init : List String) (q : Position) (last : String) :
    Prop where
  names : Path.names path = init ++ [last]
  entry : IsEntryName last
  reaches : t.Reaches ⟨maxLinks, t.start path, init⟩ q
  arrived : q.names = []

theorem find_eq (aim : Aim) (hcheck : Path.check path = .ok ()) :
    t.find aim path = t.lookUp aim (t.origin path) := by
  rw [find, hcheck]
  rfl

theorem find_of_check {e : Fault} (aim : Aim) (hcheck : Path.check path = .error e) :
    t.find aim path = .error e := by
  rw [find, hcheck]
  rfl

theorem lookUp_of_find {place : Place} (h : t.find aim path = .ok place) :
    Path.check path = .ok () ∧ t.lookUp aim (t.origin path) = .ok place := by
  obtain ⟨_, hcheck, hwalk⟩ := exists_of_bind_ok h
  exact ⟨hcheck, hwalk⟩

theorem exists_stands_of_find (h : t.find aim path = .ok ⟨l, node⟩)
    (hnode : node ≠ some .directory) : ∃ init q last, t.Stands path init q last := by
  obtain ⟨init, last, q, hnames, hlast, hreach, hq⟩ :=
    exists_directory_of_lookUp (lookUp_of_find h).2 hnode
  exact ⟨init, q, last, hnames, hlast, hreach, hq⟩

theorem Stands.lookUp (h : t.Stands path init q last) (aim : Aim) :
    t.lookUp aim (t.origin path) = t.lookUp aim ⟨q.links, q.here, [last]⟩ := by
  have hlast := lookUp_followedBy aim h.reaches h.entry
  rw [Position.followedBy, Position.followedBy, ← h.names, h.arrived] at hlast
  exact hlast

theorem Stands.origin_eq (h : t.Stands path init q last) :
    t.origin path = Position.followedBy ⟨maxLinks, t.start path, init⟩ [last] := by
  rw [origin, h.names]
  rfl

theorem Stands.find_entry (h : t.Stands path init q last) (hcheck : Path.check path = .ok ()) :
    t.find .entry path = .ok ⟨q.here ++ [last], t.node? (q.here ++ [last])⟩ := by
  rw [find_eq .entry hcheck, h.lookUp .entry, lookUp_entry h.entry, if_neg nofun]
  split
  · rename_i hdir
    rw [hdir]
    exact lookUp_eq ..
  · rename_i hlink
    rw [hlink, if_pos ⟨rfl, rfl⟩]
  · rfl

theorem Stands.find_of_node (h : t.Stands path init q last) (hcheck : Path.check path = .ok ())
    (hdir : t.node? (q.here ++ [last]) ≠ some .directory)
    (hlink : ∀ target, t.node? (q.here ++ [last]) ≠ some (.link target)) (aim : Aim) :
    t.find aim path = .ok ⟨q.here ++ [last], t.node? (q.here ++ [last])⟩ := by
  rw [find_eq aim hcheck, h.lookUp aim, lookUp_entry h.entry, if_neg nofun]
  split
  · rename_i hnode
    exact absurd hnode hdir
  · rename_i hnode
    exact absurd hnode (hlink _)
  · rfl

/-- A path leads nowhere past what ends a look-up. -/
theorem Stands.eq_of_leadsTo (h : t.Stands path init q last)
    (hdir : t.node? (q.here ++ [last]) ≠ some .directory)
    (hlink : ∀ target, t.node? (q.here ++ [last]) ≠ some (.link target))
    (hleads : t.LeadsTo path l) : l = q.here ++ [last] := by
  obtain ⟨r, hreach, hr⟩ := hleads
  rw [h.origin_eq] at hreach
  obtain heq | ⟨s, hstep, -⟩ := h.reaches.of_last h.arrived hreach hr
  · exact heq
  · rw [Position.followedBy, h.arrived] at hstep
    have hlook : Position.LooksAt ⟨q.links, q.here, [last]⟩ (q.here ++ [last]) :=
      ⟨last, [], rfl, h.entry, rfl⟩
    exact absurd hstep (not_step_of_node hlook hdir hlink)

theorem Stands.leadsToEntry_iff (h : t.Stands other init q last)
    (hcheck : Path.check other = .ok ()) :
    t.LeadsToEntry path other ↔ t.LeadsTo path (q.here ++ [last]) := by
  unfold LeadsToEntry
  rw [h.find_entry hcheck]
  refine ⟨?_, fun hleads => ⟨_, _, rfl, hleads⟩⟩
  rintro ⟨l, node, heq, hleads⟩
  cases heq
  exact hleads

/-- A path whose entry ends a look-up does not lead to another entry. -/
theorem not_leadsToEntry {node' : Option Node} {m : Location}
    (hpath : t.find .entry path = .ok ⟨l, node⟩) (hleaf : IsLeaf node)
    (hother : t.find .entry other = .ok ⟨m, node'⟩) (hne : m ≠ l) :
    ¬ t.LeadsToEntry path other := by
  rintro ⟨d, _, hentry, hleads⟩
  obtain ⟨rfl, -⟩ := place_unique hother hentry
  obtain ⟨init, q, last, hstands⟩ := exists_stands_of_find hpath hleaf.1
  obtain ⟨rfl, rfl⟩ := place_unique (hstands.find_entry (lookUp_of_find hpath).1) hpath
  exact hne (hstands.eq_of_leadsTo hleaf.1 hleaf.2 hleads)

theorem start_eq_of_home (h : t'.home = t.home) (path : String) : t'.start path = t.start path := by
  unfold start
  rw [h]

theorem origin_eq_of_home (h : t'.home = t.home) (path : String) :
    t'.origin path = t.origin path := by
  unfold origin
  rw [start_eq_of_home h]

theorem find_congr (hhome : t'.home = t.home)
    (h : t'.lookUp aim (t.origin path) = t.lookUp aim (t.origin path)) :
    t'.find aim path = t.find aim path := by
  have horigin := origin_eq_of_home hhome path
  rw [← horigin] at h
  show (Path.check path >>= fun _ => t'.lookUp aim (t'.origin path)) = _
  rw [h, horigin]
  rfl

theorem SameWays.find (h : SameWays t t') (hfind : t.find aim path = .ok ⟨l, node⟩)
    (hnode : node ≠ some .directory) : t'.find aim path = .ok ⟨l, t'.node? l⟩ := by
  obtain ⟨hcheck, hlookUp⟩ := lookUp_of_find hfind
  rw [find_eq aim hcheck, origin_eq_of_home h.home, h.lookUp hlookUp hnode]

theorem SameWays.leadsTo (h : SameWays t t') (hleads : t.LeadsTo path l) : t'.LeadsTo path l := by
  obtain ⟨q, hreach, hq⟩ := hleads
  exact ⟨q, origin_eq_of_home h.home path ▸ h.reaches hreach, hq⟩

theorem Stands.of_deadEnds (h : t.Stands path init q last) (hhome : t'.home = t.home)
    (hdead : ∀ l, t'.node? l ≠ t.node? l → t.DeadEnd l) : t'.Stands path init q last where
  names := h.names
  entry := h.entry
  reaches := by
    rw [start_eq_of_home hhome]
    exact h.reaches.of_deadEnds h.arrived hdead
  arrived := h.arrived

theorem Stands.deadEnd (h : t.Stands path init q last)
    (hlinks : t.lookUp .content (t.origin path) ≠ .error .tooManyLinks)
    (hdir : ∀ m, t.lookUp .content (t.origin path) ≠ .ok ⟨m, some .directory⟩) :
    t.DeadEnd (q.here ++ [last]) := by
  rw [h.lookUp] at hlinks hdir
  exact deadEnd_of_endsAt (p := ⟨q.links, q.here, [last]⟩) ⟨last, rfl, h.entry, rfl⟩ hlinks hdir

theorem Stands.deadEnd_of_lookUp (h : t.Stands path init q last)
    (hlookUp : t.lookUp .content (t.origin path) = .ok ⟨l, node⟩)
    (hnode : node ≠ some .directory) : t.DeadEnd (q.here ++ [last]) := by
  refine h.deadEnd (fun hout => ?_) fun m hdir => ?_
  · cases hlookUp.symm.trans hout
  · exact hnode (place_unique hlookUp hdir).2

theorem Stands.of_append {suffix : String}
    (h : t.Stands (path ++ suffix) init q (last ++ suffix))
    (hnames : Path.names path = init ++ [last]) (hlast : IsEntryName last) (hpath : path ≠ "") :
    t.Stands path init q last where
  names := hnames
  entry := hlast
  reaches := by
    have hstart : t.start (path ++ suffix) = t.start path := by
      unfold start
      rw [Path.isAbsolute_append hpath]
    exact hstart ▸ h.reaches
  arrived := h.arrived

theorem node?_of_lookUp (h : t.lookUp .content p = .ok ⟨l, node⟩) (hnode : node ≠ some .directory) :
    t.node? l = node ∧ (∀ target, node ≠ some (.link target)) ∧
      ∃ q, t.Reaches p q ∧ q.EndsAt l := by
  obtain ⟨q, o, hreach, hend⟩ := t.exists_end p
  rw [lookUp_of_reaches hreach, hend.lookUp_content] at h
  subst h
  obtain ⟨hq, hl, hlink⟩ := hend.endsAt hnode
  exact ⟨hl, hlink, q, hreach, hq⟩

end Warrant.Files.Tree
