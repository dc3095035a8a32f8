import Warrant.Files.Fault

/-!
# Path names

A path is a text. It is absolute if it starts with a slash; its names stand between slashes, where
repeated slashes count once and a slash at the end asks for a directory.
-/

namespace Warrant.Files

/-- The longest name of one entry, in bytes. -/
def maxName : Nat := 255

/-- The longest path, in bytes. -/
def maxPath : Nat := 4095

namespace Path

def isAbsolute (path : String) : Bool := path.toList.head? = some '/'

/-- The names of a path, and an empty one at the end if the path ends in a slash. -/
def names (path : String) : List String :=
  let parts := (path.toList.splitOn '/').map String.ofList
  parts.filter (· ≠ "") ++ if path.toList.getLast? = some '/' then [""] else []

def check (path : String) : Except Fault Unit :=
  if '\x00' ∈ path.toList then .error .nulInPath
  else if path = "" then .error .noEntry
  else if maxPath < path.utf8ByteSize then .error .nameTooLong
  else .ok ()

end Path

end Warrant.Files
