import Warrant.Json.Value
import Warrant.Json.Escape

/-!
# Writing JSON

`Value.compact` writes a value without blanks.
-/

namespace Warrant.Json

def quote (s : String) : List Char := '"' :: (encode s.toList ++ ['"'])

namespace Value

mutual

/-- The characters of a value. A string that stands for no characters is written empty. -/
def chars : Value → List Char
  | null => ['n', 'u', 'l', 'l']
  | bool true => ['t', 'r', 'u', 'e']
  | bool false => ['f', 'a', 'l', 's', 'e']
  | number literal => literal.toList
  | string content => quote (content.getD "")
  | array [] => ['[', ']']
  | array (v :: vs) => '[' :: (chars v ++ itemChars vs)
  | object [] => ['\x7b', '\x7d']
  | object ((k, v) :: ms) => '\x7b' :: (quote (k.getD "") ++ ':' :: (chars v ++ memberChars ms))

/-- The further items of an array and its closing bracket. -/
def itemChars : List Value → List Char
  | [] => [']']
  | v :: vs => ',' :: (chars v ++ itemChars vs)

def memberChars : List (Text × Value) → List Char
  | [] => ['\x7d']
  | (k, v) :: ms => ',' :: (quote (k.getD "") ++ ':' :: (chars v ++ memberChars ms))

end

def compact (v : Value) : String := String.ofList v.chars

end Value

end Warrant.Json
