import Warrant.Toml.Text
import Warrant.Toml.Number
import Warrant.Toml.Table

/-!
# Reading TOML

`Toml.parse?` reads a document: lines with a header, with a key and its value, or with neither. A
byte-order mark at the beginning is skipped.
-/

namespace Warrant.Toml

/-- Nesting of arrays and inline tables, and the names of a dotted key, stay below this number. -/
def depthLimit : Nat := 80

/-! ### Keys -/

def isNameChar (c : Char) : Bool := c.isAlphanum || c = '_' || c = '-'

def name? : List Char → Option (String × List Char)
  | '"' :: cs => (basic? cs).map fun r => (.ofList r.1, r.2)
  | '\x27' :: cs => (literal? cs).map fun r => (.ofList r.1, r.2)
  | cs =>
    match cs.takeWhile isNameChar with
    | [] => none
    | name => some (.ofList name, cs.dropWhile isNameChar)

/-- The names of a key, between points, blanks around each skipped. -/
def names? : Nat → List Char → Option (List String × List Char)
  | 0, _ => none
  | fuel + 1, cs => do
    let (name, cs) ← name? (skipBlanks cs)
    match skipBlanks cs with
    | '.' :: cs => do
      let (names, rest) ← names? fuel cs
      return (name :: names, rest)
    | rest => return ([name], rest)

def key? (cs : List Char) : Option (Key × List Char) := do
  let (names, rest) ← names? (cs.length + 1) cs
  if names.length < depthLimit then
    return (⟨names.dropLast, ← names.getLast?⟩, rest)
  else none

/-! ### Values -/

mutual

/-- A value. `depth` is the number of arrays and inline tables that it is inside of. -/
def value? : Nat → Nat → List Char → Option (Value × List Char)
  | 0, _, _ => none
  | fuel + 1, depth, cs =>
    match cs with
    | [] => none
    | c :: rest =>
      if c = '"' ∨ c = '\x27' then (string? cs).map fun r => (.text r.1, r.2)
      else if c = '[' then
        if depth + 1 < depthLimit then
          (items? fuel (depth + 1) rest).map fun r => (.array r.1, r.2)
        else none
      else if c = '\x7b' then
        if depth + 1 < depthLimit then do
          let (pairs, rest) ← match skipBlanks rest with
            | '\x7d' :: rest => some ([], rest)
            | _ => inlinePairs? fuel (depth + 1) rest
          return (.table (entryValues (← Entries.pairs? [] pairs)), rest)
        else none
      else if c = '+' ∨ c = '-' ∨ c.isDigit then number? cs
      else match cs with
        | 't' :: 'r' :: 'u' :: 'e' :: rest => some (.flag true, rest)
        | 'f' :: 'a' :: 'l' :: 's' :: 'e' :: rest => some (.flag false, rest)
        | cs => if c = 'i' ∨ c = 'n' then special? cs else none

/-- The items of an array up to the closing bracket; a comma may follow the last one. -/
def items? : Nat → Nat → List Char → Option (List Value × List Char)
  | 0, _, _ => none
  | fuel + 1, depth, cs =>
    match skipTrivia false cs with
    | ']' :: rest => some ([], rest)
    | cs => do
      let (v, cs) ← value? fuel depth cs
      match skipTrivia false cs with
      | ',' :: cs => do
        let (vs, rest) ← items? fuel depth cs
        return (v :: vs, rest)
      | ']' :: rest => return ([v], rest)
      | _ => none

def inlinePairs? : Nat → Nat → List Char → Option (List (Key × Value) × List Char)
  | 0, _, _ => none
  | fuel + 1, depth, cs => do
    let (k, cs) ← key? cs
    let cs ← only? '=' cs
    let (v, cs) ← value? fuel depth (skipBlanks cs)
    match skipBlanks cs with
    | ',' :: cs => do
      let (ps, rest) ← inlinePairs? fuel depth cs
      return ((k, v) :: ps, rest)
    | '\x7d' :: rest => return ([(k, v)], rest)
    | _ => none

end

/-! ### Lines -/

/-- A header after its first bracket. -/
def header? (cs : List Char) : Option (Statement × List Char) :=
  match cs with
  | '[' :: cs => do
    let (k, cs) ← key? cs
    let rest ← only? ']' (← only? ']' cs)
    return (.itemHeader k, rest)
  | cs => do
    let (k, cs) ← key? cs
    return (.tableHeader k, ← only? ']' cs)

def pair? (cs : List Char) : Option (Statement × List Char) := do
  let (k, cs) ← key? cs
  let cs ← only? '=' cs
  let (v, rest) ← value? (2 * cs.length + 2) 0 (skipBlanks cs)
  return (.pair k v, rest)

def statements? : Nat → List Char → Option (List Statement)
  | 0, _ => none
  | fuel + 1, cs =>
    match skipBlanks cs with
    | [] => some []
    | c :: rest =>
      if c = '#' ∨ c = '\n' ∨ c = '\r' then do
        statements? fuel (← endLine? (c :: rest))
      else do
        let (s, cs) ← if c = '[' then header? rest else pair? (c :: rest)
        return s :: (← statements? fuel (← endLine? cs))

/-- The entries of the table that a text describes. Each line takes at least one character, so the
fuel suffices. -/
def parse? (text : String) : Option (List (String × Value)) := do
  let cs := match text.toList with
    | '\ufeff' :: cs => cs
    | cs => cs
  assemble? (← statements? (cs.length + 1) cs)

end Warrant.Toml
