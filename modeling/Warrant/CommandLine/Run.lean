import Warrant.CommandLine.Help
import Warrant.Config.Reader
import Warrant.Catalog.File
import Warrant.Engine

/-!
# Running a command

A run takes arguments and files, and comes to an exit status, the text that it prints on both
outputs, and the files as they are afterwards. An error is printed with the errors behind it and
ends with status 1; wrong arguments end with status 2. The events of a run, which go to a log on the
error output, are left out.
-/

namespace Warrant.CommandLine

/-- What a run comes to. -/
structure Ending where
  status : Nat
  output : String
  /-- What is printed on the error output, without the log. -/
  errors : String
  files : Files.Tree

/-- An error with those behind it, the nearest first. -/
structure ErrorChain where
  head : String
  causes : List String
deriving DecidableEq, Repr

namespace ErrorChain

/-- Further lines of a text moved right. -/
def indent (margin : String) (s : String) : String :=
  String.join ((s.toList).map fun c => if c = '\n' then "\n" ++ margin else c.toString)

def numbered : Nat → List String → String
  | _, [] => ""
  | n, c :: cs =>
    let label := toString n
    "\n" ++ String.ofList (List.replicate (5 - label.length) ' ') ++ label ++ ": " ++
      indent "       " c ++ numbered (n + 1) cs

/-- The printed report; a single cause has no number. -/
def report (e : ErrorChain) : String :=
  "Error: " ++ e.head ++
  (match e.causes with
    | [] => ""
    | [c] => "\n\nCaused by:\n    " ++ indent "    " c
    | cs => "\n\nCaused by:" ++ numbered 0 cs) ++ "\n"

/-- A configuration at a path that cannot be used. -/
def ofConfig (path : String) (e : ConfigError) : ErrorChain :=
  ⟨"failed to load config " ++ path, e.message :: e.cause?.toList⟩

end ErrorChain

def changeLines (verb mark : String) (s : TextSet) : List String :=
  (verb ++ " " ++ toString s.size ++ " capabilities") ::
    s.toList.map fun c => "  " ++ mark ++ " " ++ c

def reportLines (r : Report) : List String :=
  changeLines (if r.dryRun then "would add" else "added") "+" r.added ++
  changeLines (if r.dryRun then "would remove" else "removed") "-" r.removed ++
  if r.removed.isEmpty then []
  else ["grants on removed capabilities no longer take effect; re-grant renamed ones"]

def engineFor (c : Config) (catalog : String) (files : Files.Tree) : Engine FileCatalog :=
  .new (.ofConfig c) ⟨catalog, files⟩

/-- Runs a call of an engine and prints what it answers; the events that it emits are dropped. -/
def finish {α : Type} (op : Engine.Op FileCatalog α) (lines : α → List String)
    (e : Engine FileCatalog) : Ending :=
  let out := op e
  let files := out.state.catalog.files
  match out.answer with
  | .ok a => ⟨0, CommandLine.lines (lines a), "", files⟩
  | .error (.error reason) => ⟨1, "", (ErrorChain.mk reason.message []).report, files⟩
  | .error .brokenOff => ⟨101, "", "", files⟩

def Command.config : Command → String
  | sync config .. => config
  | legal config => config
  | check config .. => config

def Command.runWith (c : Config) (files : Files.Tree) : Command → Ending
  | sync _ catalog dryRun =>
    finish (Engine.runSync c.registry dryRun) reportLines (engineFor c catalog files)
  | legal _ => ⟨0, lines c.registry.legal.toList, "", files⟩
  | check _ catalog user entity action =>
    finish (Engine.resolveAccess (.user user) entity action) (fun t => [t.name])
      (engineFor c catalog files)

def Command.run (command : Command) (files : Files.Tree) : Ending :=
  match Config.ofFile files command.config with
  | .error e => ⟨1, "", (ErrorChain.ofConfig command.config e).report, files⟩
  | .ok c => command.runWith c files

def run (arguments : List String) (files : Files.Tree) : Ending :=
  match Request.ofArguments arguments with
  | .run command => command.run files
  | .version => ⟨0, versionText, "", files⟩
  | .explain topic => ⟨0, topic.text, "", files⟩
  | .refuse reason =>
    ⟨2, "", "error: " ++ reason.message ++ "\n\nFor more information, try '--help'.\n", files⟩

end Warrant.CommandLine
