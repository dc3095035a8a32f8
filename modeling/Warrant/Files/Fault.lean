/-!
# Failures of file operations
-/

namespace Warrant.Files

/-- Why an operation on files failed. -/
inductive Fault where
  | noEntry
  | alreadyThere
  | notDirectory
  | isDirectory
  | invalidArgument
  | noSpace
  | nameTooLong
  | tooManyLinks
  /-- The path holds a NUL character. -/
  | nulInPath
  /-- The content is no text. -/
  | notText
  /-- The content has no end. -/
  | endless
deriving DecidableEq, Repr

namespace Fault

/-- The number and description of a failure that the operating system reports. -/
def numbered (description : String) (code : Nat) : String :=
  description ++ " (os error " ++ toString code ++ ")"

def message : Fault → String
  | noEntry => numbered "No such file or directory" 2
  | alreadyThere => numbered "File exists" 17
  | notDirectory => numbered "Not a directory" 20
  | isDirectory => numbered "Is a directory" 21
  | invalidArgument => numbered "Invalid argument" 22
  | noSpace => numbered "No space left on device" 28
  | nameTooLong => numbered "File name too long" 36
  | tooManyLinks => numbered "Too many levels of symbolic links" 40
  | nulInPath => "file name contained an unexpected NUL byte"
  | notText => "stream did not contain valid UTF-8"
  | endless => "out of memory"

end Fault

end Warrant.Files
