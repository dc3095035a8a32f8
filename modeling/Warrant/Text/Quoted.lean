import Warrant.TextSet
import Warrant.Text.Printable

/-!
# Quoted texts in events

Events show a set of texts between braces, each text in quotation marks. Inside, quotation marks and
backslashes take a backslash, four control characters have a letter of their own, and every other
character that is not printable is given by its code point in hexadecimal.
-/

namespace Warrant.Text

def quoteChar (c : Char) : List Char :=
  match c with
  | '"' => ['\\', '"']
  | '\\' => ['\\', '\\']
  | '\n' => ['\\', 'n']
  | '\r' => ['\\', 'r']
  | '\t' => ['\\', 't']
  | '\x00' => ['\\', '0']
  | c => if isPrintable c then [c] else ['\\', 'u', '\x7b'] ++ Nat.toDigits 16 c.toNat ++ ['\x7d']

def quoted (s : String) : String :=
  String.ofList ('"' :: (s.toList.flatMap quoteChar ++ ['"']))

end Warrant.Text

namespace Warrant.TextSet

/-- A set between braces, its elements quoted and in ascending order. -/
def quoted (s : TextSet) : String :=
  "\x7b" ++ ", ".intercalate (s.toList.map Text.quoted) ++ "\x7d"

end Warrant.TextSet
