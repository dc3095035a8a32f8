import Mathlib.Logic.Relation
import Warrant.Proofs.Files.Walk

/-!
# Looking up through links

A look-up goes from position to position: past a name, into a directory, or from a link to its
target (`Step`), until it comes to its end (`End`). All positions that a look-up for content passes
lead to the same place (`lookUp_of_reaches`). Two trees lead it along the same positions until it
looks at an entry in which they differ (`Reaches.congr`).

What leads to no directory is a dead end: with more names after it a look-up fails
(`lookUp_append`). A link whose target leads back to it leads nowhere (`lookUp_of_loop`).
-/

namespace Warrant.Files.Tree

/-- A look-up under way: how many links it may still follow, the directory it has come to, and the
names that are left. -/
structure Position where
  links : Nat
  here : Location
  names : List String

def Position.followedBy (p : Position) (names : List String) : Position :=
  { p with names := p.names ++ names }

/-- The next name is that of the entry. -/
def Position.LooksAt (p : Position) (l : Location) : Prop :=
  ∃ name rest, p.names = name :: rest ∧ IsEntryName name ∧ l = p.here ++ [name]

/-- The next name is that of the entry, and no name comes after it. -/
def Position.EndsAt (p : Position) (l : Location) : Prop :=
  ∃ name, p.names = [name] ∧ IsEntryName name ∧ l = p.here ++ [name]

/-- Where the target of a link in a directory starts. -/
def base (here : Location) (target : String) : Location :=
  if Path.isAbsolute target then [] else here

/-- One step of a look-up. -/
inductive Step (t : Tree) : Position → Position → Prop where
  | stay {k : Nat} {here : Location} {name : String} {rest : List String}
      (hname : name = "" ∨ name = ".") : Step t ⟨k, here, name :: rest⟩ ⟨k, here, rest⟩
  | up {k : Nat} {here : Location} {rest : List String} :
      Step t ⟨k, here, ".." :: rest⟩ ⟨k, here.dropLast, rest⟩
  | down {k : Nat} {here : Location} {name : String} {rest : List String}
      (hname : IsEntryName name) (hdir : t.node? (here ++ [name]) = some .directory) :
      Step t ⟨k, here, name :: rest⟩ ⟨k, here ++ [name], rest⟩
  | follow {k : Nat} {here : Location} {name target : String} {rest : List String}
      (hname : IsEntryName name) (hlink : t.node? (here ++ [name]) = some (.link target)) :
      Step t ⟨k + 1, here, name :: rest⟩ ⟨k, base here target, Path.names target ++ rest⟩

/-- What a look-up comes to at an entry that is neither a directory nor a link. -/
def leaf (l : Location) (node : Option Node) (rest : List String) : Except Fault Place :=
  if rest = [] then .ok ⟨l, node⟩ else .error (if node = none then .noEntry else .notDirectory)

/-- The end of a look-up for content, and what it comes to. -/
inductive End (t : Tree) : Position → Except Fault Place → Prop where
  | arrived {k : Nat} {here : Location} : End t ⟨k, here, []⟩ (.ok ⟨here, some .directory⟩)
  | tooLong {k : Nat} {here : Location} {name : String} {rest : List String}
      (hself : ¬ (name = "" ∨ name = ".")) (hup : name ≠ "..")
      (hlong : maxName < name.utf8ByteSize) : End t ⟨k, here, name :: rest⟩ (.error .nameTooLong)
  | outOfLinks {here : Location} {name target : String} {rest : List String}
      (hname : IsEntryName name) (hlink : t.node? (here ++ [name]) = some (.link target)) :
      End t ⟨0, here, name :: rest⟩ (.error .tooManyLinks)
  | leaf {k : Nat} {here : Location} {name : String} {rest : List String}
      (hname : IsEntryName name) (hdir : t.node? (here ++ [name]) ≠ some .directory)
      (hlink : ∀ target, t.node? (here ++ [name]) ≠ some (.link target)) :
      End t ⟨k, here, name :: rest⟩ (leaf (here ++ [name]) (t.node? (here ++ [name])) rest)

def Reaches (t : Tree) : Position → Position → Prop := Relation.ReflTransGen t.Step

/-- Where a look-up leads from a position. -/
def lookUp (t : Tree) (aim : Aim) (p : Position) : Except Fault Place :=
  t.walk aim p.links p.here p.names

variable {t t' : Tree} {aim : Aim} {p q r : Position} {l d here : Location} {k n : Nat}
  {name last target path : String} {names rest : List String} {node : Option Node}
  {o : Except Fault Place}

/-! ### One step -/

theorem Position.EndsAt.names_eq (h : p.EndsAt (d ++ [name])) : p.names = [name] := by
  obtain ⟨name', hnames, -, hl⟩ := h
  rw [hnames, List.singleton_inj.1 (List.append_inj_right' hl rfl)]

theorem step_or_end (t : Tree) (p : Position) : (∃ q, t.Step p q) ∨ ∃ o, t.End p o := by
  obtain ⟨links, here, names⟩ := p
  cases names with
  | nil => exact .inr ⟨_, .arrived⟩
  | cons name rest =>
    by_cases hself : name = "" ∨ name = "."
    · exact .inl ⟨_, .stay hself⟩
    by_cases hup : name = ".."
    · subst hup
      exact .inl ⟨_, .up⟩
    by_cases hlong : maxName < name.utf8ByteSize
    · exact .inr ⟨_, .tooLong hself hup hlong⟩
    have hname : IsEntryName name := ⟨not_or.1 hself, hup, hlong⟩
    by_cases hdir : t.node? (here ++ [name]) = some .directory
    · exact .inl ⟨_, .down hname hdir⟩
    by_cases hlink : ∃ target, t.node? (here ++ [name]) = some (.link target)
    · obtain ⟨target, hlink⟩ := hlink
      cases links with
      | zero => exact .inr ⟨_, .outOfLinks hname hlink⟩
      | succ links => exact .inl ⟨_, .follow hname hlink⟩
    · exact .inr ⟨_, .leaf hname hdir (not_exists.1 hlink)⟩

theorem Step.lt (h : t.Step p q) :
    Prod.Lex (· < ·) (· < ·) (q.links, q.names.length) (p.links, p.names.length) := by
  cases h with
  | stay _ => exact .right _ (Nat.lt_succ_self _)
  | up => exact .right _ (Nat.lt_succ_self _)
  | down _ _ => exact .right _ (Nat.lt_succ_self _)
  | follow _ _ => exact .left _ _ (Nat.lt_succ_self _)

/-- What holds of a position if it holds after the next step, holds of all. -/
theorem step_induction {motive : Position → Prop}
    (step : ∀ p, (∀ q, t.Step p q → motive q) → motive p) (p : Position) : motive p :=
  step p fun q _ => step_induction step q
termination_by (p.links, p.names.length)
decreasing_by exact Step.lt ‹_›

theorem Step.congr (h : t.Step p q) (hl : ∀ l, p.LooksAt l → t'.node? l = t.node? l) :
    t'.Step p q := by
  cases h with
  | stay hname => exact .stay hname
  | up => exact .up
  | down hname hdir => exact .down hname ((hl _ ⟨_, _, rfl, hname, rfl⟩).trans hdir)
  | follow hname hlink => exact .follow hname ((hl _ ⟨_, _, rfl, hname, rfl⟩).trans hlink)

theorem Step.followedBy (h : t.Step p q) (names : List String) :
    t.Step (p.followedBy names) (q.followedBy names) := by
  cases h with
  | stay hname => exact .stay hname
  | up => exact .up
  | down hname hdir => exact .down hname hdir
  | @follow links here name target rest hname hlink =>
    have hstep : t.Step ⟨links + 1, here, name :: (rest ++ names)⟩ _ := .follow hname hlink
    rw [← List.append_assoc] at hstep
    exact hstep

theorem End.congr (h : t.End p o) (hl : ∀ l, p.LooksAt l → t'.node? l = t.node? l) :
    t'.End p o := by
  cases h with
  | arrived => exact .arrived
  | tooLong hself hup hlong => exact .tooLong hself hup hlong
  | outOfLinks hname hlink =>
    exact .outOfLinks hname ((hl _ ⟨_, _, rfl, hname, rfl⟩).trans hlink)
  | leaf hname hdir hlink =>
    have hsame := hl _ ⟨_, _, rfl, hname, rfl⟩
    dsimp only at hsame
    rw [← hsame] at hdir hlink ⊢
    exact .leaf hname hdir hlink

def follow (t : Tree) (aim : Aim) : Nat → Location → List String → Except Fault Place
  | 0 => fun _ _ => .error .tooManyLinks
  | links + 1 => t.walk aim links

theorem lookUp_eq (t : Tree) (aim : Aim) (k : Nat) (here : Location) (names : List String) :
    t.lookUp aim ⟨k, here, names⟩ = t.walkNames aim (t.follow aim k) here names := by
  cases k with
  | zero => rfl
  | succ links => rfl

theorem lookUp_entry (hname : IsEntryName name) :
    t.lookUp aim ⟨k, here, name :: rest⟩ =
      if aim = .creation ∧ rest = [""] then .error .isDirectory
      else
        match t.node? (here ++ [name]) with
        | some .directory => t.lookUp aim ⟨k, here ++ [name], rest⟩
        | some (.link target) =>
          if rest = [] ∧ aim = .entry then .ok ⟨here ++ [name], some (.link target)⟩
          else t.follow aim k (base here target) (Path.names target ++ rest)
        | node => leaf (here ++ [name]) node rest := by
  obtain ⟨hself, hup, hlong⟩ := hname
  rw [lookUp_eq, walkNames, if_neg (not_or.2 hself), if_neg hup, if_neg hlong]
  congr 1
  unfold leaf
  simp only [List.isEmpty_iff]
  cases t.node? (here ++ [name]) with
  | none => rfl
  | some node =>
    cases node with
    | directory => exact (lookUp_eq ..).symm
    | link target => rfl
    | file content => rfl
    | device kind => rfl

/-- A look-up comes to what it comes to for content, unless a slash at its end is refused or it is
for the entry of a link itself. -/
def ComesTo (t : Tree) (aim : Aim) (p : Position) (o : Except Fault Place) : Prop :=
  t.lookUp aim p = o ∨
    (aim = .creation ∧ p.names.tail = [""] ∧ t.lookUp aim p = .error .isDirectory) ∨
    (aim = .entry ∧ ∃ l, p.EndsAt l ∧ t.lookUp aim p = .ok ⟨l, t.node? l⟩)

theorem ComesTo.content (h : t.ComesTo .content p o) : t.lookUp .content p = o := by
  obtain h | ⟨haim, -⟩ | ⟨haim, -⟩ := h
  · exact h
  · cases haim
  · cases haim

theorem ComesTo.of_ok {place : Place} (h : t.ComesTo aim p o) (hok : t.lookUp aim p = .ok place) :
    o = .ok place ∨ aim = .entry ∧ ∃ l, p.EndsAt l := by
  obtain h | ⟨-, -, hrefused⟩ | ⟨haim, l, hl, -⟩ := h
  · exact .inl (h.symm.trans hok)
  · cases hrefused.symm.trans hok
  · exact .inr ⟨haim, l, hl⟩

theorem comesTo_of_link (hname : IsEntryName name)
    (hlink : t.node? (here ++ [name]) = some (.link target)) :
    t.ComesTo aim ⟨k, here, name :: rest⟩
      (t.follow aim k (base here target) (Path.names target ++ rest)) := by
  unfold ComesTo
  rw [lookUp_entry hname]
  by_cases hslash : aim = .creation ∧ rest = [""]
  · rw [if_pos hslash]
    exact .inr (.inl ⟨hslash.1, hslash.2, rfl⟩)
  rw [if_neg hslash, hlink]
  dsimp only
  by_cases hstop : rest = [] ∧ aim = .entry
  · obtain ⟨rfl, haim⟩ := hstop
    rw [if_pos ⟨rfl, haim⟩]
    exact .inr (.inr ⟨haim, _, ⟨name, rfl, hname, rfl⟩, by rw [hlink]⟩)
  · rw [if_neg hstop]
    exact .inl rfl

theorem Step.comesTo (h : t.Step p q) (aim : Aim) : t.ComesTo aim p (t.lookUp aim q) := by
  cases h with
  | stay hname =>
    left
    rw [lookUp_eq, walkNames, if_pos hname, lookUp_eq]
  | up =>
    left
    rw [lookUp_eq, walkNames, if_neg (by decide), if_pos rfl, lookUp_eq]
  | @down k here name rest hname hdir =>
    unfold ComesTo
    rw [lookUp_entry hname]
    by_cases hslash : aim = .creation ∧ rest = [""]
    · rw [if_pos hslash]
      exact .inr (.inl ⟨hslash.1, hslash.2, rfl⟩)
    · rw [if_neg hslash, hdir]
      exact .inl rfl
  | follow hname hlink => exact comesTo_of_link hname hlink

theorem End.comesTo (h : t.End p o) (aim : Aim) : t.ComesTo aim p o := by
  cases h with
  | arrived =>
    left
    rw [lookUp_eq, walkNames]
  | @tooLong k here name rest hself hup hlong =>
    unfold ComesTo
    rw [lookUp_eq, walkNames, if_neg hself, if_neg hup, if_pos hlong]
    by_cases hslash : aim = .creation ∧ rest = [""]
    · rw [if_pos hslash]
      exact .inr (.inl ⟨hslash.1, hslash.2, rfl⟩)
    · rw [if_neg hslash]
      exact .inl rfl
  | outOfLinks hname hlink => exact comesTo_of_link hname hlink
  | @leaf k here name rest hname hdir hlink =>
    unfold ComesTo
    rw [lookUp_entry hname]
    by_cases hslash : aim = .creation ∧ rest = [""]
    · rw [if_pos hslash]
      exact .inr (.inl ⟨hslash.1, hslash.2, rfl⟩)
    rw [if_neg hslash]
    left
    split
    · rename_i hnode
      exact absurd hnode hdir
    · rename_i hnode
      exact absurd hnode (hlink _)
    · rfl

theorem Step.lookUp_content (h : t.Step p q) : t.lookUp .content p = t.lookUp .content q :=
  (h.comesTo .content).content

theorem End.lookUp_content (h : t.End p o) : t.lookUp .content p = o := (h.comesTo .content).content

theorem lookUp_content_of_creation {place : Place} (h : t.lookUp .creation p = .ok place) :
    t.lookUp .content p = .ok place := by
  induction p using step_induction (t := t) with
  | step p ih =>
    obtain ⟨q, hstep⟩ | ⟨o, hend⟩ := t.step_or_end p
    · obtain hq | ⟨haim, -⟩ := (hstep.comesTo .creation).of_ok h
      · exact hstep.lookUp_content.trans (ih q hstep hq)
      · cases haim
    · obtain ho | ⟨haim, -⟩ := (hend.comesTo .creation).of_ok h
      · exact hend.lookUp_content.trans ho
      · cases haim

/-! ### Any number of steps -/

theorem Reaches.refl (t : Tree) (p : Position) : t.Reaches p p := Relation.ReflTransGen.refl

theorem Reaches.head (h : t.Step p q) (h' : t.Reaches q r) : t.Reaches p r :=
  Relation.ReflTransGen.head h h'

theorem Reaches.trans (h : t.Reaches p q) (h' : t.Reaches q r) : t.Reaches p r :=
  Relation.ReflTransGen.trans h h'

theorem Reaches.followedBy (h : t.Reaches p q) (names : List String) :
    t.Reaches (p.followedBy names) (q.followedBy names) := by
  induction h using Relation.ReflTransGen.head_induction_on with
  | refl => exact .refl t _
  | head hstep _ ih => exact ih.head (hstep.followedBy names)

theorem lookUp_of_reaches (h : t.Reaches p q) : t.lookUp .content p = t.lookUp .content q := by
  induction h using Relation.ReflTransGen.head_induction_on with
  | refl => rfl
  | head hstep _ ih => exact hstep.lookUp_content.trans ih

/-- On the way to the directory of the last name, all look-ups are alike. -/
theorem lookUp_followedBy (aim : Aim) (h : t.Reaches p q) (hname : IsEntryName name) :
    t.lookUp aim (p.followedBy [name]) = t.lookUp aim (q.followedBy [name]) := by
  induction h using Relation.ReflTransGen.head_induction_on with
  | refl => rfl
  | @head p r hstep _ ih =>
    rw [← ih]
    -- `p` has a name to pass before the last one.
    have hnames : p.names ≠ [] := by cases hstep <;> exact List.cons_ne_nil _ _
    obtain ⟨first, more, hcons⟩ := List.exists_cons_of_ne_nil hnames
    obtain h | ⟨-, hslash, -⟩ | ⟨-, _, ⟨_, hone, -⟩, -⟩ :=
      (hstep.followedBy [name]).comesTo aim
    · exact h
    · have hlast := congrArg List.getLast? hslash
      rw [Position.followedBy, hcons, List.cons_append, List.tail_cons,
        List.getLast?_concat] at hlast
      exact absurd (Option.some.inj hlast) hname.1.1
    · have hlength := congrArg List.length hone
      rw [Position.followedBy, hcons] at hlength
      simp at hlength

theorem exists_end (t : Tree) (p : Position) : ∃ q o, t.Reaches p q ∧ t.End q o := by
  induction p using step_induction (t := t) with
  | step p ih =>
    obtain ⟨q, hstep⟩ | ⟨o, hend⟩ := t.step_or_end p
    · obtain ⟨r, o, hreach, hend⟩ := ih q hstep
      exact ⟨r, o, hreach.head hstep, hend⟩
    · exact ⟨p, o, .refl t p, hend⟩

/-! ### Two trees -/

/-- A look-up passes the same positions in another tree, up to where it looks at an entry in which
the trees differ. -/
theorem Reaches.congr (t' : Tree) (h : t.Reaches p q) :
    t'.Reaches p q ∨ ∃ r l, t.Reaches p r ∧ t'.Reaches p r ∧ t.Reaches r q ∧ r.LooksAt l ∧
      t'.node? l ≠ t.node? l := by
  -- From the head, so that the difference found is the first on the way.
  induction h using Relation.ReflTransGen.head_induction_on with
  | refl => exact .inl (.refl t' q)
  | @head p s hstep hrest ih =>
    by_cases hsame : ∀ l, p.LooksAt l → t'.node? l = t.node? l
    · have hstep' := hstep.congr hsame
      obtain hreach | ⟨r, l, hr, hr', hrq, hlook, hdiffer⟩ := ih
      · exact .inl (hreach.head hstep')
      · exact .inr ⟨r, l, hr.head hstep, hr'.head hstep', hrq, hlook, hdiffer⟩
    · obtain ⟨l, hl⟩ := Classical.not_forall.1 hsame
      obtain ⟨hlook, hdiffer⟩ := Classical.not_imp.1 hl
      exact .inr ⟨p, l, .refl t p, .refl t' p, hrest.head hstep, hlook, hdiffer⟩

theorem lookUp_congr (t' : Tree) (p : Position) :
    t'.lookUp .content p = t.lookUp .content p ∨
      ∃ r l, t.Reaches p r ∧ r.LooksAt l ∧ t'.node? l ≠ t.node? l := by
  obtain ⟨q, o, hreach, hend⟩ := t.exists_end p
  obtain hreach' | ⟨r, l, hr, -, -, hlook, hdiffer⟩ := hreach.congr t'
  · by_cases hsame : ∀ l, q.LooksAt l → t'.node? l = t.node? l
    · left
      rw [lookUp_of_reaches hreach', lookUp_of_reaches hreach, hend.lookUp_content,
        (hend.congr hsame).lookUp_content]
    · obtain ⟨l, hl⟩ := Classical.not_forall.1 hsame
      obtain ⟨hlook, hdiffer⟩ := Classical.not_imp.1 hl
      exact .inr ⟨q, l, hreach, hlook, hdiffer⟩
  · exact .inr ⟨r, l, hr, hlook, hdiffer⟩

/-- What ends a look-up, or fails it where names are left. -/
def IsLeaf (node : Option Node) : Prop :=
  node ≠ some .directory ∧ ∀ target, node ≠ some (.link target)

/-- The trees differ only in what ends look-ups in both. -/
structure SameWays (t t' : Tree) : Prop where
  home : t'.home = t.home
  leaves : ∀ l, t'.node? l ≠ t.node? l → IsLeaf (t.node? l) ∧ IsLeaf (t'.node? l)

namespace SameWays

theorem symm (h : SameWays t t') : SameWays t' t :=
  ⟨h.home.symm, fun l hl => (h.leaves l (Ne.symm hl)).symm⟩

theorem node?_of_not_isLeaf (h : SameWays t t') (hl : ¬ IsLeaf (t.node? l)) :
    t'.node? l = t.node? l :=
  Classical.byContradiction fun hne => hl (h.leaves l hne).1

theorem directory (h : SameWays t t') (hl : t.node? l = some .directory) :
    t'.node? l = some .directory :=
  (h.node?_of_not_isLeaf fun hleaf => hleaf.1 hl).trans hl

theorem link (h : SameWays t t') (hl : t.node? l = some (.link target)) :
    t'.node? l = some (.link target) :=
  (h.node?_of_not_isLeaf fun hleaf => hleaf.2 target hl).trans hl

theorem isLeaf (h : SameWays t t') (hl : IsLeaf (t.node? l)) : IsLeaf (t'.node? l) := by
  by_cases hsame : t'.node? l = t.node? l
  · exact hsame ▸ hl
  · exact (h.leaves l hsame).2

theorem reaches (h : SameWays t t') (hreach : t.Reaches p q) : t'.Reaches p q := by
  refine Relation.ReflTransGen.mono (fun p q hstep => ?_) p q hreach
  cases hstep with
  | stay hname => exact .stay hname
  | up => exact .up
  | down hname hdir => exact .down hname (h.directory hdir)
  | follow hname hlink => exact .follow hname (h.link hlink)

theorem lookUp (h : SameWays t t') (hok : t.lookUp aim p = .ok ⟨l, node⟩)
    (hnode : node ≠ some .directory) : t'.lookUp aim p = .ok ⟨l, t'.node? l⟩ := by
  induction p using step_induction (t := t) with
  | step p ih =>
    obtain ⟨k, here, names⟩ := p
    cases names with
    | nil =>
      rw [lookUp_eq, walkNames] at hok
      cases hok
      exact absurd rfl hnode
    | cons name rest =>
      by_cases hself : name = "" ∨ name = "."
      · rw [lookUp_eq, walkNames, if_pos hself, ← lookUp_eq] at hok ⊢
        exact ih _ (.stay hself) hok
      by_cases hup : name = ".."
      · rw [lookUp_eq, walkNames, if_neg hself, if_pos hup, ← lookUp_eq] at hok ⊢
        exact ih _ (hup ▸ .up) hok
      by_cases hlong : maxName < name.utf8ByteSize
      · obtain hout | ⟨haim, m, hm⟩ := ((End.tooLong hself hup hlong).comesTo aim).of_ok hok
        · cases hout
        · obtain ⟨_, hcons, hname, -⟩ := hm
          cases hcons
          exact absurd hlong hname.2.2
      have hname : IsEntryName name := ⟨not_or.1 hself, hup, hlong⟩
      rw [lookUp_entry hname] at hok ⊢
      split at hok
      · cases hok
      rename_i hslash
      rw [if_neg hslash]
      split at hok
      · rename_i hdir
        rw [h.directory hdir]
        exact ih _ (.down hname hdir) hok
      · rename_i target hlink
        rw [h.link hlink]
        dsimp only
        split at hok
        · rename_i hstop
          cases hok
          rw [if_pos hstop, h.link hlink]
        · rename_i hstop
          rw [if_neg hstop]
          cases k with
          | zero => cases hok
          | succ k => exact ih _ (.follow hname hlink) hok
      · rename_i hdir hlink
        obtain ⟨hdir', hlink'⟩ := h.isLeaf ⟨hdir, hlink⟩
        unfold leaf at hok
        split at hok
        · rename_i hrest
          cases hok
          split
          · rename_i hnode'
            exact absurd hnode' hdir'
          · rename_i hnode'
            exact absurd hnode' (hlink' _)
          · exact if_pos hrest
        · cases hok

end SameWays

/-! ### Other links to spend -/

theorem Step.relink (h : t.Step p q) (k : Nat) :
    t.lookUp .content { p with links := k } = .error .tooManyLinks ∨
      ∃ k' ≤ k, t.Step { p with links := k } { q with links := k' } := by
  cases h with
  | stay hname => exact .inr ⟨k, Nat.le_refl k, .stay hname⟩
  | up => exact .inr ⟨k, Nat.le_refl k, .up⟩
  | down hname hdir => exact .inr ⟨k, Nat.le_refl k, .down hname hdir⟩
  | follow hname hlink =>
    cases k with
    | zero => exact .inl (End.outOfLinks hname hlink).lookUp_content
    | succ k => exact .inr ⟨k, Nat.le_succ k, .follow hname hlink⟩

/-- With another number of links to follow, a look-up passes the same positions or runs out of
links. -/
theorem Reaches.relink (h : t.Reaches p q) (k : Nat) :
    t.lookUp .content { p with links := k } = .error .tooManyLinks ∨
      ∃ k' ≤ k, t.Reaches { p with links := k } { q with links := k' } := by
  induction h using Relation.ReflTransGen.head_induction_on generalizing k with
  | refl => exact .inr ⟨k, Nat.le_refl k, .refl t _⟩
  | head hstep _ ih =>
    obtain hout | ⟨k₁, hle, hstep'⟩ := hstep.relink k
    · exact .inl hout
    obtain hout | ⟨k₂, hle', hreach⟩ := ih k₁
    · exact .inl (hstep'.lookUp_content.trans hout)
    · exact .inr ⟨k₂, Nat.le_trans hle' hle, hreach.head hstep'⟩

/-- What a look-up comes to that goes on with more names where another one ended. -/
def beyond (o : Except Fault Place) (rest : List String) : Except Fault Place :=
  match o with
  | .ok ⟨l, node⟩ => leaf l node rest
  | .error e => .error e

theorem End.followedBy (h : t.End q o) (hlinks : o ≠ .error .tooManyLinks)
    (hdir : ∀ l, o ≠ .ok ⟨l, some .directory⟩) (k : Nat) (names : List String) :
    t.End ⟨k, q.here, q.names ++ names⟩ (beyond o names) := by
  cases h with
  | arrived => exact absurd rfl (hdir _)
  | tooLong hself hup hlong => exact .tooLong hself hup hlong
  | outOfLinks _ _ => exact absurd rfl hlinks
  | @leaf _ here name rest hname hnode hlink =>
    have hend : t.End ⟨k, here, name :: (rest ++ names)⟩ _ := .leaf hname hnode hlink
    by_cases hrest : rest = []
    · subst hrest
      exact hend
    · unfold Tree.leaf at hend ⊢
      rw [if_neg (by simp [hrest])] at hend
      rw [if_neg hrest]
      exact hend

/-- Where a look-up ends that leads to no directory, it ends with more names too, unless it runs out
of links. -/
theorem lookUp_append (hlinks : t.lookUp .content p ≠ .error .tooManyLinks)
    (hdir : ∀ l, t.lookUp .content p ≠ .ok ⟨l, some .directory⟩) (k : Nat) (names : List String) :
    let p' : Position := ⟨k, p.here, p.names ++ names⟩
    t.lookUp .content p' = .error .tooManyLinks ∨
      t.lookUp .content p' = beyond (t.lookUp .content p) names := by
  intro p'
  obtain ⟨q, o, hreach, hend⟩ := t.exists_end p
  obtain hout | ⟨k', -, hreach'⟩ := (hreach.followedBy names).relink k
  · exact .inl hout
  · rw [lookUp_of_reaches hreach, hend.lookUp_content] at hlinks hdir ⊢
    right
    rw [← (hend.followedBy hlinks hdir k' names).lookUp_content]
    exact lookUp_of_reaches hreach'

theorem lookUp_of_loop (h : t.Reaches ⟨k, base d target, Path.names target⟩ q)
    (hq : q.EndsAt (d ++ [name])) (hlink : t.node? (d ++ [name]) = some (.link target)) (n : Nat) :
    t.lookUp .content ⟨n, base d target, Path.names target⟩ = .error .tooManyLinks := by
  obtain ⟨links, here, names⟩ := q
  obtain ⟨name', rfl, hname, hl⟩ := hq
  obtain ⟨rfl, hname'⟩ := List.append_inj' hl rfl
  obtain rfl := List.singleton_inj.1 hname'
  -- Each time round costs a link at least, so the links that are left decrease.
  induction n using Nat.strongRecOn with
  | ind n ih =>
    obtain hout | ⟨m, hle, hreach⟩ := h.relink n
    · exact hout
    rw [lookUp_of_reaches hreach]
    cases m with
    | zero => exact (End.outOfLinks hname hlink).lookUp_content
    | succ m =>
      have hstep : t.Step ⟨m + 1, d, [name]⟩ ⟨m, base d target, Path.names target ++ []⟩ :=
        .follow hname hlink
      rw [List.append_nil] at hstep
      exact hstep.lookUp_content.trans (ih m hle)

end Warrant.Files.Tree
