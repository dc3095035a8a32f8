import Warrant.Text.Hexadecimal

/-!
# Strings in JSON

Inside quotation marks a character stands for itself or is written with a backslash. `encode` writes
the fewest escapes: quotation marks, backslashes and the control characters below U+0020. `scan`
reads up to the closing mark, and `decode` gives the characters that the parts stand for.
-/

namespace Warrant.Json

/-- One part of a string: a character, or an escape by a code unit of four hexadecimal digits. -/
inductive Part where
  | char (c : Char)
  | unit (n : Nat)
deriving DecidableEq, Repr

/-! ### Reading -/

def escaped? : Char → Option Char
  | '"' => some '"'
  | '\\' => some '\\'
  | '/' => some '/'
  | 'b' => some '\x08'
  | 'f' => some '\x0c'
  | 'n' => some '\n'
  | 'r' => some '\r'
  | 't' => some '\t'
  | _ => none

/-- The parts of a string up to the closing quotation mark, and what follows it. -/
def scan : List Char → Option (List Part × List Char)
  | [] => none
  | '"' :: rest => some ([], rest)
  | '\\' :: 'u' :: a :: b :: c :: d :: rest => do
    let n ← Text.hexNumber? [a, b, c, d]
    let (parts, after) ← scan rest
    return (.unit n :: parts, after)
  | '\\' :: c :: rest => do
    let e ← escaped? c
    let (parts, after) ← scan rest
    return (.char e :: parts, after)
  | c :: rest =>
    if c.toNat < 0x20 ∨ c = '\\' then none
    else do
      let (parts, after) ← scan rest
      return (.char c :: parts, after)

def isHighSurrogate (n : Nat) : Bool := 0xD800 ≤ n && n < 0xDC00

def isLowSurrogate (n : Nat) : Bool := 0xDC00 ≤ n && n < 0xE000

/-- The characters that the parts stand for; an unpaired surrogate stands for none. -/
def decode : List Part → Option (List Char)
  | [] => some []
  | .char c :: rest => (decode rest).map (c :: ·)
  | .unit high :: .unit low :: rest =>
    if isHighSurrogate high then
      if isLowSurrogate low then
        (decode rest).map (Char.ofNat (0x10000 + (high - 0xD800) * 0x400 + (low - 0xDC00)) :: ·)
      else none
    else if isLowSurrogate high then none
    else (decode (.unit low :: rest)).map (Char.ofNat high :: ·)
  | .unit n :: rest =>
    if isHighSurrogate n || isLowSurrogate n then none
    else (decode rest).map (Char.ofNat n :: ·)

/-! ### Writing -/

def encodeChar (c : Char) : List Char :=
  match c with
  | '"' => ['\\', '"']
  | '\\' => ['\\', '\\']
  | '\x08' => ['\\', 'b']
  | '\x0c' => ['\\', 'f']
  | '\n' => ['\\', 'n']
  | '\r' => ['\\', 'r']
  | '\t' => ['\\', 't']
  | c =>
    if c.toNat < 0x20 then
      ['\\', 'u', '0', '0', Text.hexDigit (c.toNat / 16), Text.hexDigit (c.toNat % 16)]
    else [c]

/-- The inside of a written string. -/
def encode (cs : List Char) : List Char := cs.flatMap encodeChar

end Warrant.Json
