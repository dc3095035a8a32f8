import Warrant.Json.Value
import Warrant.Json.Escape

/-!
# Reading JSON

`Value.parse?` reads a text that holds one value and nothing else but blanks. It follows the grammar
strictly: no comments, no trailing commas, no bare words, and no byte-order mark.
-/

namespace Warrant.Json

def isBlank (c : Char) : Bool := c = ' ' || c = '\n' || c = '\t' || c = '\r'

def skipBlanks (cs : List Char) : List Char := cs.dropWhile isBlank

def expect? : List Char → List Char → Option (List Char)
  | [], cs => some cs
  | e :: es, c :: cs => if e = c then expect? es cs else none
  | _ :: _, [] => none

/-- A string after its opening quotation mark. -/
def string? (cs : List Char) : Option (Text × List Char) := do
  let (parts, rest) ← scan cs
  return ((decode parts).map String.ofList, rest)

/-! ### Numbers -/

def digits? (cs : List Char) : Option (List Char × List Char) :=
  match cs.takeWhile Char.isDigit with
  | [] => none
  | ds => some (ds, cs.dropWhile Char.isDigit)

/-- A whole part: no zero before another digit. -/
def whole? : List Char → Option (List Char × List Char)
  | '0' :: cs => if cs.head?.any Char.isDigit then none else some (['0'], cs)
  | cs => digits? cs

def fraction? : List Char → Option (List Char × List Char)
  | '.' :: cs => do
    let (ds, rest) ← digits? cs
    return ('.' :: ds, rest)
  | cs => some ([], cs)

def sign : List Char → List Char × List Char
  | '+' :: cs => (['+'], cs)
  | '-' :: cs => (['-'], cs)
  | cs => ([], cs)

def exponent? : List Char → Option (List Char × List Char)
  | [] => some ([], [])
  | c :: cs =>
    if c = 'e' ∨ c = 'E' then do
      let (s, cs) := sign cs
      let (ds, rest) ← digits? cs
      return (c :: s ++ ds, rest)
    else some ([], c :: cs)

def number? (cs : List Char) : Option (Value × List Char) := do
  let (minus, cs) := match cs with
    | '-' :: cs => (['-'], cs)
    | cs => ([], cs)
  let (w, cs) ← whole? cs
  let (f, cs) ← fraction? cs
  let (e, cs) ← exponent? cs
  return (.number (String.ofList (minus ++ w ++ f ++ e)), cs)

/-! ### Values -/

mutual

/-- One value, blanks before it skipped; `fuel` bounds the depth of the descent. -/
def value? : Nat → List Char → Option (Value × List Char)
  | 0, _ => none
  | fuel + 1, cs =>
    match skipBlanks cs with
    | '"' :: cs => do
      let (content, rest) ← string? cs
      return (.string content, rest)
    | '[' :: cs =>
      match skipBlanks cs with
      | ']' :: rest => some (.array [], rest)
      | cs => do
        let (items, rest) ← items? fuel cs
        return (.array items, rest)
    | '\x7b' :: cs =>
      match skipBlanks cs with
      | '\x7d' :: rest => some (.object [], rest)
      | cs => do
        let (members, rest) ← members? fuel cs
        return (.object members, rest)
    | 'n' :: cs => (expect? ['u', 'l', 'l'] cs).map (.null, ·)
    | 't' :: cs => (expect? ['r', 'u', 'e'] cs).map (.bool true, ·)
    | 'f' :: cs => (expect? ['a', 'l', 's', 'e'] cs).map (.bool false, ·)
    | cs => number? cs

/-- The items of an array from the first one on, up to the closing bracket. -/
def items? : Nat → List Char → Option (List Value × List Char)
  | 0, _ => none
  | fuel + 1, cs => do
    let (v, cs) ← value? fuel cs
    match skipBlanks cs with
    | ',' :: cs => do
      let (vs, rest) ← items? fuel cs
      return (v :: vs, rest)
    | ']' :: rest => return ([v], rest)
    | _ => none

def members? : Nat → List Char → Option (List (Text × Value) × List Char)
  | 0, _ => none
  | fuel + 1, cs =>
    match skipBlanks cs with
    | '"' :: cs => do
      let (key, cs) ← string? cs
      match skipBlanks cs with
      | ':' :: cs => do
        let (v, cs) ← value? fuel cs
        match skipBlanks cs with
        | ',' :: cs => do
          let (ms, rest) ← members? fuel cs
          return ((key, v) :: ms, rest)
        | '\x7d' :: rest => return ([(key, v)], rest)
        | _ => none
      | _ => none
    | _ => none

end

/-- The value that a text holds. Every step of the descent but every second one consumes a
character, so the fuel suffices. -/
def Value.parse? (text : String) : Option Value := do
  let cs := text.toList
  let (v, rest) ← value? (2 * cs.length + 2) cs
  if (skipBlanks rest).isEmpty then some v else none

end Warrant.Json
