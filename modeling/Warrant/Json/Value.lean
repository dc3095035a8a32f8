/-!
# JSON values

A value as it stands in a text. A string may be written with escapes that name half of a surrogate
pair and so stand for no characters; such a string is passed over where nothing is read from it.
-/

namespace Warrant.Json

/-- The characters of a string, if its escapes name any. -/
abbrev Text := Option String

inductive Value where
  | null
  | bool (value : Bool)
  | number (literal : String)
  | string (content : Text)
  | array (items : List Value)
  | object (members : List (Text × Value))
deriving Inhabited, Repr

namespace Value

def text (s : String) : Value := string (some s)

def texts (ss : List String) : Value := array (ss.map text)

def record (members : List (String × Value)) : Value :=
  object (members.map fun m => (some m.1, m.2))

end Value

end Warrant.Json
