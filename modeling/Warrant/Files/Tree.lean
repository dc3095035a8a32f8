import Warrant.Files.Path

/-!
# A tree of files

Directories, files, symbolic links and a few devices, each at a location below the root. Paths are
looked up name by name from the working directory or from the root; links on the way are followed,
forty of them at most. Operations that change the tree answer the changed tree.
-/

namespace Warrant.Files

/-- The names from the root down to an entry. -/
abbrev Location := List String

inductive Device where
  /-- Reads as empty and swallows what is written. -/
  | null
  /-- Swallows what is written and reads without end. -/
  | zero
  /-- Has no room for anything that is written, and reads without end. -/
  | full
deriving DecidableEq, Repr

/-- Contents are compared byte by byte. -/
local instance decEqContent : DecidableEq ByteArray := ByteArray.instDecidableEq

inductive Node where
  | file (content : ByteArray)
  | directory
  | link (target : String)
  | device (kind : Device)
deriving DecidableEq

/-- The entries below the root, and the directory where relative paths start. What an entry stands
for has a number, and has other names as well if the numbers of several entries are the same. -/
structure Tree where
  entries : List (Location × Nat)
  /-- What the numbers stand for. -/
  nodes : List Node
  home : Location
  bounded : ∀ e ∈ entries, e.2 < nodes.length
deriving DecidableEq

namespace Tree

/-- The number of what is at a location; the root has none. -/
def number? (t : Tree) (l : Location) : Option Nat :=
  if l = [] then none else (t.entries.find? fun e => e.1 = l).map (·.2)

theorem number?_lt {t : Tree} {l : Location} {i : Nat} (h : t.number? l = some i) :
    i < t.nodes.length := by
  unfold number? at h
  split at h
  · cases h
  · obtain ⟨e, he, rfl⟩ := Option.map_eq_some_iff.1 h
    exact t.bounded e (List.mem_of_find?_eq_some he)

/-- What is at a location; the root is a directory. -/
def node? (t : Tree) (l : Location) : Option Node :=
  if l = [] then some .directory else (t.number? l).bind fun i => t.nodes[i]?

/-- Two locations stand for the same file: they are one, or two names of it. -/
def SameFile (t : Tree) (l m : Location) : Prop :=
  l = m ∨ t.number? l = t.number? m ∧ t.number? l ≠ none

instance (t : Tree) (l m : Location) : Decidable (t.SameFile l m) :=
  inferInstanceAs (Decidable (_ ∨ _ ∧ _))

def restrict (t : Tree) (kept : Location → Bool) : Tree :=
  { t with
    entries := t.entries.filter fun e => kept e.1
    bounded := fun e he => t.bounded e (List.mem_filter.1 he).1 }

def erase (t : Tree) (l : Location) : Tree := t.restrict fun m => m ≠ l

/-- Puts something new at a location, in place of what is there. -/
def put (t : Tree) (l : Location) (n : Node) : Tree where
  entries := (l, t.nodes.length) :: (t.erase l).entries
  nodes := t.nodes ++ [n]
  home := t.home
  bounded := by
    intro e he
    rw [List.length_append]
    rcases List.mem_cons.1 he with rfl | he
    · exact Nat.lt_succ_self _
    · exact Nat.lt_succ_of_lt ((t.erase l).bounded e he)

/-- Gives the file at a location a content, which it has under all its names. -/
def fill (t : Tree) (l : Location) (content : ByteArray) : Tree :=
  match t.number? l with
  | none => t
  | some i =>
    { t with
      nodes := t.nodes.set i (.file content)
      bounded := by rw [List.length_set]; exact t.bounded }

/-- Gives what is at a location another name, in place of what has that name. -/
def share (t : Tree) (l m : Location) : Tree :=
  { t with
    entries := (t.number? l).toList.map (fun i => (m, i)) ++ (t.erase m).entries
    bounded := by
      intro e he
      rcases List.mem_append.1 he with he | he
      · obtain ⟨i, hi, rfl⟩ := List.mem_map.1 he
        exact number?_lt (Option.mem_toList.1 hi)
      · exact (t.erase m).bounded e he }

/-- Takes an entry to another location, in place of what is there. Two names of one file both
stay. -/
def move (t : Tree) (source target : Location) : Tree :=
  if t.SameFile source target then t else (t.share source target).erase source

/-! ### Looking up -/

/-- Where a path leads: a location in an existing directory, and what is there. -/
structure Place where
  location : Location
  node : Option Node

/-- What a path is looked up for. -/
inductive Aim where
  /-- What is there itself, be it a link. -/
  | entry
  /-- What is there in the end; a link in the last place is followed. -/
  | content
  /-- The same for a file that may be made. No file has a name with a slash after it. -/
  | creation
deriving DecidableEq, Repr

/-- Follows names from a directory. What a link stands for is left to `follow`, which gets the
directory that its target starts from, and the names that are left. -/
def walkNames (t : Tree) (aim : Aim) (follow : Location → List String → Except Fault Place) :
    Location → List String → Except Fault Place
  | here, [] => .ok ⟨here, some .directory⟩
  | here, name :: rest =>
    if name = "" ∨ name = "." then t.walkNames aim follow here rest
    else if name = ".." then t.walkNames aim follow here.dropLast rest
    else if aim = .creation ∧ rest = [""] then .error .isDirectory
    else if maxName < name.utf8ByteSize then .error .nameTooLong
    else
      match t.node? (here ++ [name]) with
      | none => if rest.isEmpty then .ok ⟨here ++ [name], none⟩ else .error .noEntry
      | some .directory => t.walkNames aim follow (here ++ [name]) rest
      | some (.link target) =>
        if rest.isEmpty ∧ aim = .entry then .ok ⟨here ++ [name], some (.link target)⟩
        else follow (if Path.isAbsolute target then [] else here) (Path.names target ++ rest)
      | some n => if rest.isEmpty then .ok ⟨here ++ [name], some n⟩ else .error .notDirectory

/-- Follows names from a directory, and as many links as the number says. -/
def walk (t : Tree) (aim : Aim) : Nat → Location → List String → Except Fault Place
  | 0 => t.walkNames aim fun _ _ => .error .tooManyLinks
  | links + 1 => t.walkNames aim (t.walk aim links)

def maxLinks : Nat := 40

/-- Where a path leads. -/
def find (t : Tree) (aim : Aim) (path : String) : Except Fault Place := do
  Path.check path
  t.walk aim maxLinks (if Path.isAbsolute path then [] else t.home) (Path.names path)

/-! ### Operations -/

def read (t : Tree) (path : String) : Except Fault ByteArray := do
  match (← t.find .content path).node with
  | some (.file content) => .ok content
  | some (.device .null) => .ok .empty
  | some (.device .zero) | some (.device .full) => .error .endless
  | some .directory => .error .isDirectory
  | some (.link _) => .error .tooManyLinks
  | none => .error .noEntry

def readText (t : Tree) (path : String) : Except Fault String := do
  match String.fromUTF8? (← t.read path) with
  | some text => .ok text
  | none => .error .notText

/-- Opens a file for writing: empties it, or makes it if it is missing. Answers its location. -/
def create (t : Tree) (path : String) : Except Fault (Location × Tree) := do
  let place ← t.find .creation path
  match place.node with
  | some .directory => .error .isDirectory
  | some (.device _) => .ok (place.location, t)
  | some (.link _) => .error .tooManyLinks
  | some (.file _) => .ok (place.location, t.fill place.location .empty)
  | none => .ok (place.location, t.put place.location (.file .empty))

/-- Writes the content of an opened file and waits until it is kept. -/
def store (t : Tree) (l : Location) (content : ByteArray) : Except Fault Tree :=
  match t.node? l with
  | some (.device .full) => .error .noSpace
  | some (.device _) => .error .invalidArgument
  | _ => .ok (t.fill l content)

/-- Moves an entry that is no directory to another path, in place of what is there. Where the paths
are two names of one file, nothing is done. -/
def rename (t : Tree) (source target : String) : Except Fault Tree := do
  let old ← t.find .entry source
  match old.node with
  | none => .error .noEntry
  | some _ =>
    let new ← t.find .entry target
    match new.node with
    | some .directory => .error .isDirectory
    | _ => .ok (t.move old.location new.location)

/-- Removes an entry that is no directory. -/
def remove (t : Tree) (path : String) : Except Fault Tree := do
  let place ← t.find .entry path
  match place.node with
  | none => .error .noEntry
  | some .directory => .error .isDirectory
  | some _ => .ok (t.erase place.location)

def removeAll (t : Tree) (path : String) : Except Fault Tree := do
  let place ← t.find .entry path
  match place.node with
  | none => .error .noEntry
  | some _ => .ok (t.restrict fun l => !place.location.isPrefixOf l)

def write (t : Tree) (path : String) (content : ByteArray) : Except Fault Tree := do
  let (l, t) ← t.create path
  match t.node? l with
  | some (.device .full) => .error .noSpace
  | some (.device _) => .ok t
  | _ => t.store l content

/-- Makes the directories of a list of names that are missing. A link that leads nowhere is in the
way. Answers the tree as far as it came, and what stopped it. -/
def makeNames (t : Tree) (here : Location) : List String → Tree × Except Fault Unit
  | [] => (t, .ok ())
  | name :: rest =>
    match t.walk .content maxLinks here [name] with
    | .error e => (t, .error e)
    | .ok ⟨l, some .directory⟩ => t.makeNames l rest
    | .ok ⟨l, node⟩ =>
      if node = none ∧ l = here ++ [name] then (t.put l .directory).makeNames l rest
      else (t, .error .alreadyThere)

def makeDirectories (t : Tree) (path : String) : Tree × Except Fault Unit :=
  match Path.check path with
  | .error e => (t, .error e)
  | .ok () => t.makeNames (if Path.isAbsolute path then [] else t.home) (Path.names path)

def makeLink (t : Tree) (path target : String) : Except Fault Tree := do
  Path.check target
  let place ← t.find .entry path
  match place.node with
  | none => .ok (t.put place.location (.link target))
  | some _ => .error .alreadyThere

def homeNames (t : Tree) : List String :=
  t.entries.filterMap fun e =>
    if e.1.dropLast = t.home ∧ e.1 ≠ [] then e.1.getLast? else none

/-- A tree in which nothing has two names. -/
def ofEntries (home : Location) (entries : List (Location × Node)) : Tree where
  entries := entries.zipIdx.map fun e => (e.1.1, e.2)
  nodes := entries.map (·.2)
  home := home
  bounded := by
    intro e he
    obtain ⟨⟨⟨l, n⟩, i⟩, hi, rfl⟩ := List.mem_map.1 he
    rw [List.length_map]
    exact (List.mem_zipIdx' hi).1

/-- An empty working directory beside the devices and the directories of a system. -/
def fresh : Tree :=
  ofEntries ["work"] [(["work"], .directory), (["dev"], .directory),
    (["dev", "null"], .device .null), (["dev", "zero"], .device .zero),
    (["dev", "full"], .device .full), (["etc"], .directory), (["home"], .directory),
    (["tmp"], .directory), (["usr"], .directory), (["var"], .directory)]

end Tree

end Warrant.Files
