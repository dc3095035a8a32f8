import Warrant.CommandLine.Run

/-!
# The program

`main` takes the part of the machine's files that a command can touch into a tree, runs the command
on it, and writes the catalog file if the run changed it.
-/

namespace Warrant.Main

open Files

def pathsOf : CommandLine.Request → List String
  | .run (.sync config catalog _) => [config, catalog, FileCatalog.temporary catalog]
  | .run (.legal config) => [config]
  | .run (.check config catalog ..) => [config, catalog]
  | _ => []

/-- Takes what is at a path, and the directories on the way to it, into a tree. -/
def capture (t : Tree) (path : String) : IO Tree := do
  let here ← IO.currentDir
  let names := Path.names path
  let lead := if Path.isAbsolute path then "/" else ""
  let mut t := t
  for n in List.range names.length do
    let part := lead ++ "/".intercalate (names.take (n + 1))
    let real := here / part
    if let .ok place := t.find .content part then
      if ← real.isDir then
        t := t.put place.location .directory
      else if ← real.pathExists then
        t := t.put place.location (.file (← IO.FS.readBinFile real))
  return t

/-- Writes the file at a path by way of a temporary file, if its content changed. -/
def writeBack (before after : Tree) (path : String) : IO Unit := do
  match before.read path, after.read path with
  | old, .ok content =>
    if old.toOption != some content then
      let temporary := FileCatalog.temporary path
      IO.FS.writeBinFile temporary content
      IO.FS.rename temporary path
  | _, .error _ => return

end Warrant.Main

def main (arguments : List String) : IO UInt32 := do
  let request := Warrant.CommandLine.Request.ofArguments arguments
  let before ← (Warrant.Main.pathsOf request).foldlM Warrant.Main.capture .fresh
  let ending := Warrant.CommandLine.run arguments before
  (← IO.getStdout).putStr ending.output
  (← IO.getStderr).putStr ending.errors
  match request with
  | .run (.sync _ catalog _) => Warrant.Main.writeBack before ending.files catalog
  | _ => pure ()
  return ending.status.toUInt32
