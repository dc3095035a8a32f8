import Warrant.Toml.Value

/-!
# Numbers and points in time in TOML

Integers have to fit into 64 bits with sign. A floating-point number has to be finite if it is
positive; one that is negative may fall below every finite one. Dates have to be real.
-/

namespace Warrant.Toml

/-- Digits of a base that may be joined by single underscores, at least one. `digit` is the test. -/
def digits? (digit : Char → Bool) : List Char → Option (List Char × List Char)
  | [] => none
  | '_' :: _ => none
  | c :: '_' :: d :: cs =>
    if digit c then
      if digit d then (digits? digit (d :: cs)).map fun r => (c :: r.1, r.2) else none
    else none
  | c :: cs =>
    if digit c then
      if cs.head?.any digit then (digits? digit cs).map fun r => (c :: r.1, r.2)
      else if cs.head? = some '_' then none
      else some ([c], cs)
    else none

def valueOf (base : Nat) (digits : List Char) : Nat :=
  digits.foldl (fun n c =>
    n * base + (if c.isDigit then c.toNat - '0'.toNat else (c.toLower.toNat - 'a'.toNat) + 10)) 0

/-- A sign, if there is one; whether it is a minus. -/
def sign : List Char → Bool × List Char
  | '+' :: cs => (false, cs)
  | '-' :: cs => (true, cs)
  | cs => (false, cs)

/-- The digits of a decimal whole number: no zero before others. -/
def decimal? : List Char → Option (List Char × List Char)
  | '0' :: cs => some (['0'], cs)
  | cs => digits? Char.isDigit cs

def fits (n : Int) : Bool := -0x8000000000000000 ≤ n && n < 0x8000000000000000

def fitting? (n : Int) (cs : List Char) : Option (Value × List Char) :=
  if fits n then some (.integer n, cs) else none

def isHexDigit (c : Char) : Bool := c.isDigit || ('a' ≤ c && c ≤ 'f') || ('A' ≤ c && c ≤ 'F')

/-- An integer, in decimal or with the mark of another base. -/
def integer? : List Char → Option (Value × List Char)
  | '0' :: 'x' :: cs => do
    let (ds, rest) ← digits? isHexDigit cs
    fitting? (valueOf 16 ds) rest
  | '0' :: 'o' :: cs => do
    let (ds, rest) ← digits? (fun c => '0' ≤ c && c ≤ '7') cs
    fitting? (valueOf 8 ds) rest
  | '0' :: 'b' :: cs => do
    let (ds, rest) ← digits? (fun c => c = '0' || c = '1') cs
    fitting? (valueOf 2 ds) rest
  | cs => do
    let (minus, cs) := sign cs
    let (ds, rest) ← decimal? cs
    let n : Int := valueOf 10 ds
    fitting? (if minus then -n else n) rest

/-! ### Floating point -/

def exponent? : List Char → Option ((Bool × List Char) × List Char)
  | c :: cs =>
    if c = 'e' ∨ c = 'E' then do
      let (minus, cs) := sign cs
      let (ds, rest) ← digits? Char.isDigit cs
      return ((minus, ds), rest)
    else none
  | [] => none

/-- Whether `m · 10 ^ e` rounds to a finite number of double precision. From the middle between the
greatest one and `2 ^ 1024` on it does not. -/
def isFinite (m : Nat) (e : Int) : Bool :=
  let limit := Nat.pow 2 1024 - Nat.pow 2 970
  let digits : Int := (toString m).length
  if m = 0 ∨ digits + e ≤ 308 then true
  else if 310 < digits + e then false
  else if 0 ≤ e then m * Nat.pow 10 e.toNat < limit
  else m < limit * Nat.pow 10 (-e).toNat

def float? (cs : List Char) : Option (Value × List Char) := do
  let (minus, body) := sign cs
  let (whole, rest) ← decimal? body
  let (fraction, rest, pointed) ← match rest with
    | '.' :: rest => (digits? Char.isDigit rest).map fun r => (r.1, r.2, true)
    | rest => some ([], rest, false)
  let (power, rest, scaled) ← match rest.head? with
    | some 'e' | some 'E' => (exponent? rest).map fun r => (r.1, r.2, true)
    | _ => some ((false, []), rest, false)
  let shift : Int := valueOf 10 power.2
  let e := (if power.1 then -shift else shift) - fraction.length
  if (pointed || scaled) && (minus || isFinite (valueOf 10 (whole ++ fraction)) e) then
    some (.float (.ofList (cs.take (cs.length - rest.length))), rest)
  else none

/-- Infinity or the value that is no number, with or without a sign. -/
def special? (cs : List Char) : Option (Value × List Char) :=
  match sign cs with
  | (_, 'i' :: 'n' :: 'f' :: rest) => some (.float "inf", rest)
  | (_, 'n' :: 'a' :: 'n' :: rest) => some (.float "nan", rest)
  | _ => none

/-! ### Points in time -/

def twoDigits? (low high : Nat) : List Char → Option (Nat × List Char)
  | a :: b :: cs =>
    if a.isDigit && b.isDigit then
      let n := valueOf 10 [a, b]
      if low ≤ n ∧ n ≤ high then some (n, cs) else none
    else none
  | _ => none

def only? (c : Char) : List Char → Option (List Char)
  | d :: cs => if c = d then some cs else none
  | [] => none

def daysIn (year month : Nat) : Nat :=
  if month = 2 then
    if year % 4 = 0 ∧ (year % 100 ≠ 0 ∨ year % 400 = 0) then 29 else 28
  else if month = 4 ∨ month = 6 ∨ month = 9 ∨ month = 11 then 30
  else 31

def date? : List Char → Option (List Char)
  | a :: b :: c :: d :: cs => do
    if [a, b, c, d].all Char.isDigit then
      let cs ← only? '-' cs
      let (month, cs) ← twoDigits? 1 12 cs
      let cs ← only? '-' cs
      let (_, cs) ← twoDigits? 1 (daysIn (valueOf 10 [a, b, c, d]) month) cs
      return cs
    else none
  | _ => none

/-- A time of day, with a fraction of a second if there is a point. -/
def time? (cs : List Char) : Option (List Char) := do
  let (_, cs) ← twoDigits? 0 23 cs
  let cs ← only? ':' cs
  let (_, cs) ← twoDigits? 0 59 cs
  let cs ← only? ':' cs
  let (_, cs) ← twoDigits? 0 60 cs
  return match cs with
    | '.' :: d :: rest => if d.isDigit then rest.dropWhile Char.isDigit else '.' :: d :: rest
    | cs => cs

/-- A distance from universal time, if there is one. -/
def offset? : List Char → Option (List Char)
  | 'Z' :: cs | 'z' :: cs => some cs
  | '+' :: cs | '-' :: cs => do
    let (_, cs) ← twoDigits? 0 23 cs
    let cs ← only? ':' cs
    let (_, cs) ← twoDigits? 0 59 cs
    return cs
  | cs => some cs

/-- A date, a time, or both, the latter with or without a distance from universal time. -/
def moment? (cs : List Char) : Option (Value × List Char) := do
  let rest ← match date? cs with
    | some rest =>
      match rest with
      | c :: after =>
        if c = 'T' ∨ c = 't' ∨ c = ' ' then
          match time? after with
          | some rest => offset? rest
          | none => some rest
        else some rest
      | [] => some []
    | none => time? cs
  return (.moment (.ofList (cs.take (cs.length - rest.length))), rest)

def number? (cs : List Char) : Option (Value × List Char) :=
  (moment? cs).orElse fun _ => (float? cs).orElse fun _ => (special? cs).orElse fun _ => integer? cs

end Warrant.Toml
