/-!
# TOML values

The value that a key has in a TOML document. Of floating-point numbers and points in time only the
text is kept.
-/

namespace Warrant.Toml

inductive Value where
  | text (s : String)
  | integer (n : Int)
  | float (literal : String)
  | moment (literal : String)
  | flag (b : Bool)
  | array (items : List Value)
  | table (entries : List (String × Value))
deriving Inhabited, Repr

/-- A key: the names before its last one, and the last one. -/
structure Key where
  parents : List String
  last : String
deriving DecidableEq, Repr

inductive Statement where
  /-- `[key]` opens a table. -/
  | tableHeader (key : Key)
  /-- `[[key]]` opens the next table of an array. -/
  | itemHeader (key : Key)
  /-- `key = value` in the table that is open. -/
  | pair (key : Key) (value : Value)
deriving Repr

end Warrant.Toml
