import Warrant.Text.Hexadecimal

/-!
# Characters, strings and blanks in TOML

Readers take the characters from where they stand and answer what they read together with the rest.
-/

namespace Warrant.Toml

def isBlank (c : Char) : Bool := c = ' ' || c = '\t'

/-- A character that a line may hold: no control character but the tab. -/
def isLineChar (c : Char) : Bool := c = '\t' || (0x20 ≤ c.toNat && c.toNat ≠ 0x7F)

def skipBlanks (cs : List Char) : List Char := cs.dropWhile isBlank

/-- Drops the end of a line, if it is next. -/
def newline? : List Char → Option (List Char)
  | '\n' :: cs => some cs
  | '\r' :: '\n' :: cs => some cs
  | _ => none

def skipNewline (cs : List Char) : List Char := (newline? cs).getD cs

/-- Skips blanks, ends of lines and comments; `inComment` says whether a comment is open. -/
def skipTrivia : Bool → List Char → List Char
  | _, [] => []
  | _, '\n' :: cs => skipTrivia false cs
  | _, '\r' :: '\n' :: cs => skipTrivia false cs
  | true, c :: cs => if isLineChar c then skipTrivia true cs else c :: cs
  | false, c :: cs =>
    if isBlank c then skipTrivia false cs
    else if c = '#' then skipTrivia true cs
    else c :: cs

/-- The rest of a line without content: blanks, a comment, and the end of the line or text. -/
def endLine? (cs : List Char) : Option (List Char) :=
  let cs := match skipBlanks cs with
    | '#' :: cs => cs.dropWhile isLineChar
    | cs => cs
  match cs with
  | [] => some []
  | cs => newline? cs

/-! ### Escapes -/

def scalar? (digits : List Char) : Option Char := do
  let n ← Warrant.Text.hexNumber? digits
  if n < 0xD800 ∨ (0xE000 ≤ n ∧ n < 0x110000) then some (Char.ofNat n) else none

def escaped? : Char → Option Char
  | 'b' => some '\x08'
  | 't' => some '\t'
  | 'n' => some '\n'
  | 'f' => some '\x0c'
  | 'r' => some '\r'
  | '"' => some '"'
  | '\\' => some '\\'
  | _ => none

/-! ### Strings -/

def push (c : Char) (read : Option (List Char × List Char)) : Option (List Char × List Char) :=
  read.map fun r => (c :: r.1, r.2)

/-- A basic string after its opening quotation mark. -/
def basic? : List Char → Option (List Char × List Char)
  | [] => none
  | '"' :: cs => some ([], cs)
  | '\\' :: 'u' :: c₁ :: c₂ :: c₃ :: c₄ :: cs => do
    push (← scalar? [c₁, c₂, c₃, c₄]) (basic? cs)
  | '\\' :: 'U' :: c₁ :: c₂ :: c₃ :: c₄ :: c₅ :: c₆ :: c₇ :: c₈ :: cs => do
    push (← scalar? [c₁, c₂, c₃, c₄, c₅, c₆, c₇, c₈]) (basic? cs)
  | '\\' :: c :: cs => do push (← escaped? c) (basic? cs)
  | c :: cs => if isLineChar c && c ≠ '\\' then push c (basic? cs) else none

def literal? : List Char → Option (List Char × List Char)
  | [] => none
  | '\x27' :: cs => some ([], cs)
  | c :: cs => if isLineChar c then push c (literal? cs) else none

/-- Whether nothing but blanks stands before the end of the line. -/
def isBlankLine (cs : List Char) : Bool := (newline? (skipBlanks cs)).isSome

/-- A basic string of several lines after its opening marks. Up to two quotation marks may stand
before the closing three. After a backslash at the end of a line blanks and ends of lines are
dropped; `dropping` says whether that is going on. -/
def longBasic? : Bool → List Char → Option (List Char × List Char)
  | _, [] => none
  | dropping, '\n' :: cs =>
    if dropping then longBasic? true cs else push '\n' (longBasic? false cs)
  | dropping, '\r' :: '\n' :: cs =>
    if dropping then longBasic? true cs else push '\n' (longBasic? false cs)
  | _, '"' :: '"' :: '"' :: '"' :: '"' :: cs => some (['"', '"'], cs)
  | _, '"' :: '"' :: '"' :: '"' :: cs => some (['"'], cs)
  | _, '"' :: '"' :: '"' :: cs => some ([], cs)
  | _, '\\' :: 'u' :: c₁ :: c₂ :: c₃ :: c₄ :: cs => do
    push (← scalar? [c₁, c₂, c₃, c₄]) (longBasic? false cs)
  | _, '\\' :: 'U' :: c₁ :: c₂ :: c₃ :: c₄ :: c₅ :: c₆ :: c₇ :: c₈ :: cs => do
    push (← scalar? [c₁, c₂, c₃, c₄, c₅, c₆, c₇, c₈]) (longBasic? false cs)
  | _, '\\' :: c :: cs =>
    if isBlankLine (c :: cs) then longBasic? true (c :: cs)
    else do push (← escaped? c) (longBasic? false cs)
  | dropping, c :: cs =>
    if dropping && isBlank c then longBasic? true cs
    else if isLineChar c && c ≠ '\\' then push c (longBasic? false cs)
    else none

def longLiteral? : List Char → Option (List Char × List Char)
  | [] => none
  | '\n' :: cs => push '\n' (longLiteral? cs)
  | '\r' :: '\n' :: cs => push '\n' (longLiteral? cs)
  | '\x27' :: '\x27' :: '\x27' :: '\x27' :: '\x27' :: cs => some (['\x27', '\x27'], cs)
  | '\x27' :: '\x27' :: '\x27' :: '\x27' :: cs => some (['\x27'], cs)
  | '\x27' :: '\x27' :: '\x27' :: cs => some ([], cs)
  | c :: cs => if isLineChar c then push c (longLiteral? cs) else none

def string? : List Char → Option (String × List Char)
  | '"' :: '"' :: '"' :: cs => (longBasic? false (skipNewline cs)).map fun r => (.ofList r.1, r.2)
  | '"' :: cs => (basic? cs).map fun r => (.ofList r.1, r.2)
  | '\x27' :: '\x27' :: '\x27' :: cs =>
    (longLiteral? (skipNewline cs)).map fun r => (.ofList r.1, r.2)
  | '\x27' :: cs => (literal? cs).map fun r => (.ofList r.1, r.2)
  | _ => none

end Warrant.Toml
