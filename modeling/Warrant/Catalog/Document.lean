import Warrant.Json.Reader
import Warrant.Json.Writer
import Warrant.TextSet

/-!
# The text of a catalog file

A catalog is kept as a JSON array of strings. It is written in ascending order with one element on a
line, and read from any array of strings, in any order and with repetitions.
-/

namespace Warrant.Catalog.Document

/-- The lines of the elements after the first one. -/
def furtherLines (entries : List String) : List Char :=
  entries.flatMap fun e => [',', '\n', ' ', ' '] ++ Json.quote e

def encode (s : TextSet) : String :=
  String.ofList <| match s.toList with
    | [] => ['[', ']']
    | e :: es => ['[', '\n', ' ', ' '] ++ Json.quote e ++ furtherLines es ++ ['\n', ']']

def entry? : Json.Value → Option String
  | .string content => content
  | _ => none

def decode? (text : String) : Option TextSet := do
  match ← Json.Value.parse? text with
  | .array items => return TextSet.ofList (← items.mapM entry?)
  | _ => none

def ofBytes? (content : ByteArray) : Option TextSet := String.fromUTF8? content >>= decode?

end Warrant.Catalog.Document
