import Warrant.Toml.Value

/-!
# Building tables

Statements extend a tree of tables. A table stands under a header, was implied by the header of a
table inside it, or arose from a dotted key; these differ in who may still extend them. No key is
given twice, and nothing extends a value.
-/

namespace Warrant.Toml

/-- How a table came about. -/
inductive Origin where
  /-- It has a header of its own. -/
  | header
  /-- A table inside it has one. -/
  | implied
  /-- It is a part of a dotted key. -/
  | dotted
deriving DecidableEq, Repr

/-- What a key stands for while a document is read. -/
inductive Node where
  | value (v : Value)
  | table (origin : Origin) (entries : List (String × Node))
  /-- An array whose items have headers of their own. -/
  | tables (items : List (List (String × Node)))
deriving Inhabited

/-- The entries of a table, in the order of their first mention. -/
abbrev Entries := List (String × Node)

namespace Entries

def get? (es : Entries) (k : String) : Option Node := (es.find? fun e => e.1 = k).map (·.2)

def add (es : Entries) (k : String) (n : Node) : Entries := es ++ [(k, n)]

def set (es : Entries) (k : String) (n : Node) : Entries :=
  es.map fun e => if e.1 = k then (k, n) else e

def define? (es : Entries) (k : String) (v : Value) : Option Entries :=
  match es.get? k with
  | none => some (es.add k (.value v))
  | some _ => none

/-- Changes the table that a path of names leads to; tables on the way that are missing are made.
A path within a dotted key does not enter a table that has a header. -/
def within? (inKey : Bool) (change : Origin → Entries → Option Entries) (origin : Origin) :
    List String → Entries → Option Entries
  | [], es => change origin es
  | k :: path, es =>
    match es.get? k with
    | none => do
      let made : Origin := if inKey then .dotted else .implied
      return es.add k (.table made (← within? inKey change made path []))
    | some (.value _) => none
    | some (.table o inner) =>
      if inKey && o = .header then none
      else do return es.set k (.table o (← within? inKey change o path inner))
    | some (.tables items) => do
      let inner ← items.getLast?
      return es.set k (.tables (items.dropLast ++ [← within? inKey change .header path inner]))

/-- Adds a pair to a table. The last table on the way of a dotted key must be one of such keys. -/
def pair? (es : Entries) (k : Key) (v : Value) : Option Entries :=
  match k.parents with
  | [] => es.define? k.last v
  | path =>
    within? true (fun o es => if o = .dotted then es.define? k.last v else none) .header path es

def pairs? (es : Entries) (ps : List (Key × Value)) : Option Entries :=
  ps.foldlM (fun es p => es.pair? p.1 p.2) es

/-- Adds a table with a header, or gives one that was implied its header. -/
def table? (root : Entries) (k : Key) (ps : List (Key × Value)) : Option Entries :=
  within? false (fun _ es =>
    match es.get? k.last with
    | none => do return es.add k.last (.table .header (← pairs? [] ps))
    | some (.table .implied inner) => do
      return es.set k.last (.table .header (← pairs? inner ps))
    | some _ => none) .header k.parents root

/-- Adds an item to an array of tables, or begins one. -/
def item? (root : Entries) (k : Key) (ps : List (Key × Value)) : Option Entries :=
  within? false (fun _ es =>
    match es.get? k.last with
    | none => do return es.add k.last (.tables [← pairs? [] ps])
    | some (.tables items) => do
      return es.set k.last (.tables (items ++ [← pairs? [] ps]))
    | some _ => none) .header k.parents root

end Entries

/-! ### Values of finished tables -/

mutual

def Node.toValue : Node → Value
  | .value v => v
  | .table _ es => .table (entryValues es)
  | .tables items => .array (tableValues items)

def entryValues : List (String × Node) → List (String × Value)
  | [] => []
  | (k, n) :: es => (k, n.toValue) :: entryValues es

def tableValues : List (List (String × Node)) → List Value
  | [] => []
  | es :: items => .table (entryValues es) :: tableValues items

end

/-! ### Documents -/

/-- The pairs before the first header, and the headers with what follows each. -/
def sections : List Statement → List (Key × Value) × List (Statement × List (Key × Value))
  | [] => ([], [])
  | .pair k v :: rest => let r := sections rest; ((k, v) :: r.1, r.2)
  | h :: rest => let r := sections rest; ([], (h, r.1) :: r.2)

def addSection? (root : Entries) (s : Statement × List (Key × Value)) : Option Entries :=
  match s.1 with
  | .tableHeader k => root.table? k s.2
  | .itemHeader k => root.item? k s.2
  | .pair .. => none

def assemble? (statements : List Statement) : Option (List (String × Value)) := do
  let (top, rest) := sections statements
  let root ← rest.foldlM addSection? (← Entries.pairs? [] top)
  return entryValues root

end Warrant.Toml
