/-!
# Arguments of the command line

The program has three commands, each with options of its own. Options may stand in any order, a
value follows its option or is attached to it, and letters may share one dash. No option is given
twice, no value starts with a dash, and a path is not empty. The arguments are read from left to
right, so that a call for help or for the version counts unless something before it is wrong.
-/

namespace Warrant.CommandLine

/-- What the program is asked to do. -/
inductive Command where
  /-- Bring a catalog in line with a configuration. -/
  | sync (config catalog : String) (dryRun : Bool)
  /-- Print the legal capabilities. -/
  | legal (config : String)
  /-- Print the tier of a request of a user. -/
  | check (config catalog user entity action : String)
deriving DecidableEq, Repr

inductive Topic where
  | program
  | sync
  | legal
  | check
  | help
deriving DecidableEq, Repr

/-- What is wrong with the arguments. -/
inductive UsageError where
  | unknownArgument (argument : String)
  | unknownCommand (name : String)
  | missingCommand
  | missingValue (option : String)
  | needlessValue (option value : String)
  | emptyValue (option : String)
  | repeated (option : String)
  | missingOption (option : String)
deriving DecidableEq, Repr

namespace UsageError

def message : UsageError → String
  | unknownArgument argument => "unexpected argument '" ++ argument ++ "' found"
  | unknownCommand name => "unrecognized subcommand '" ++ name ++ "'"
  | missingCommand => "a subcommand is required but one was not provided"
  | missingValue option => "a value is required for '--" ++ option ++ "' but none was supplied"
  | needlessValue option value =>
    "unexpected value '" ++ value ++ "' for '--" ++ option ++ "' found; no more were expected"
  | emptyValue option => "a value is required for '--" ++ option ++ "' but none was supplied"
  | repeated option => "the argument '--" ++ option ++ "' cannot be used multiple times"
  | missingOption option => "the following required argument was not provided: --" ++ option

end UsageError

/-- What an option takes, or what it stops the program for. -/
inductive OptionKind where
  | flag
  /-- A value that is not empty. -/
  | path
  /-- Any value. -/
  | text
  | help
  | version
deriving DecidableEq, Repr

structure OptionSpec where
  long : String
  short? : Option Char
  kind : OptionKind
deriving DecidableEq, Repr

/-- Why reading ends before the last argument. -/
inductive Stop where
  | usage (reason : UsageError)
  | help
  | version
deriving DecidableEq, Repr

/-- The options given so far with their values; a flag has the empty one. -/
abbrev Given := List (String × String)

namespace Given

def value? (g : Given) (long : String) : Option String := (g.find? fun e => e.1 = long).map (·.2)

def has (g : Given) (long : String) : Bool := (g.value? long).isSome

def require (g : Given) (long : String) : Except UsageError String :=
  match g.value? long with
  | some v => .ok v
  | none => .error (.missingOption long)

def add (g : Given) (o : OptionSpec) (value : String) : Except Stop Given :=
  if g.has o.long then .error (.usage (.repeated o.long))
  else if o.kind = .path ∧ value = "" then .error (.usage (.emptyValue o.long))
  else .ok (g ++ [(o.long, value)])

end Given

/-- Whether an argument is an option or the end of the options. -/
def isDashed (argument : String) : Bool :=
  match argument.toList with
  | '-' :: _ :: _ => true
  | _ => false

/-- Letters after one dash. Answers also the option whose value is still to come. -/
def readLetters (specs : List OptionSpec) (argument : String) :
    Given → List Char → Except Stop (Given × Option OptionSpec)
  | g, [] => .ok (g, none)
  | g, c :: cs =>
    match specs.find? fun o => o.short? = some c with
    | none => .error (.usage (.unknownArgument argument))
    | some o =>
      match o.kind with
      | .help => .error .help
      | .version => .error .version
      | .flag => do readLetters specs argument (← g.add o "") cs
      | .path | .text =>
        match cs with
        | [] => .ok (g, some o)
        | '=' :: value => do return (← g.add o (.ofList value), none)
        | value => do return (← g.add o (.ofList value), none)

/-- An option by its full name, perhaps with a value after an equals sign. -/
def readLong (specs : List OptionSpec) (argument : String) (g : Given) (body : List Char) :
    Except Stop (Given × Option OptionSpec) :=
  let name := String.ofList (body.takeWhile (· ≠ '='))
  let attached := match body.dropWhile (· ≠ '=') with
    | _ :: value => some (String.ofList value)
    | [] => none
  match specs.find? fun o => o.long = name with
  | none => .error (.usage (.unknownArgument argument))
  | some o =>
    match o.kind, attached with
    | .help, none => .error .help
    | .version, none => .error .version
    | .flag, none => do return (← g.add o "", none)
    | .path, some value | .text, some value => do return (← g.add o value, none)
    | .path, none | .text, none => .ok (g, some o)
    | _, some value => .error (.usage (.needlessValue o.long value))

/-- Options up to the first argument that is none; answers it and what follows it, if there is one.
Nothing may follow a double dash. -/
def readOptions (specs : List OptionSpec) :
    Given → List String → Except Stop (Given × Option (String × List String))
  | g, [] => .ok (g, none)
  | g, argument :: rest =>
    match argument.toList with
    | ['-', '-'] =>
      match rest with
      | [] => .ok (g, none)
      | next :: _ => .error (.usage (.unknownArgument next))
    | '-' :: '-' :: body => do
      match ← readLong specs argument g body with
      | (g, none) => readOptions specs g rest
      | (g, some o) =>
        match rest with
        | [] => .error (.usage (.missingValue o.long))
        | value :: rest =>
          if isDashed value then .error (.usage (.missingValue o.long))
          else readOptions specs (← g.add o value) rest
    | '-' :: c :: cs => do
      match ← readLetters specs argument g (c :: cs) with
      | (g, none) => readOptions specs g rest
      | (g, some o) =>
        match rest with
        | [] => .error (.usage (.missingValue o.long))
        | value :: rest =>
          if isDashed value then .error (.usage (.missingValue o.long))
          else readOptions specs (← g.add o value) rest
    | _ => .ok (g, some (argument, rest))

/-! ### Commands -/

namespace OptionSpec

def verbose : OptionSpec := ⟨"verbose", some 'v', .flag⟩
def help : OptionSpec := ⟨"help", some 'h', .help⟩
def version : OptionSpec := ⟨"version", some 'V', .version⟩
def config : OptionSpec := ⟨"config", some 'c', .path⟩
def catalog : OptionSpec := ⟨"catalog", none, .path⟩
def dryRun : OptionSpec := ⟨"dry-run", none, .flag⟩
def user : OptionSpec := ⟨"user", none, .text⟩
def entity : OptionSpec := ⟨"entity", none, .text⟩
def action : OptionSpec := ⟨"action", none, .text⟩

end OptionSpec

inductive Request where
  | run (command : Command)
  | explain (topic : Topic)
  | version
  | refuse (reason : UsageError)
deriving DecidableEq, Repr

/-- The options of a command, and nothing else. -/
def readOnlyOptions (specs : List OptionSpec) (arguments : List String) : Except Stop Given := do
  match ← readOptions specs [] arguments with
  | (g, none) => .ok g
  | (_, some (argument, _)) => .error (.usage (.unknownArgument argument))

def request (topic : Topic) (specs : List OptionSpec) (build : Given → Except UsageError Command)
    (arguments : List String) : Request :=
  match readOnlyOptions (specs ++ [.verbose, .help]) arguments with
  | .error .help => .explain topic
  | .error .version => .version
  | .error (.usage reason) => .refuse reason
  | .ok g =>
    match build g with
    | .ok command => .run command
    | .error reason => .refuse reason

/-- The topic that the names after `help` ask for. -/
def helpRequest : List String → Request
  | [] => .explain .program
  | name :: rest =>
    let topic? : Option Topic := match name with
      | "sync" => some .sync
      | "legal" => some .legal
      | "check" => some .check
      | "help" => some .help
      | _ => none
    match topic?, rest with
    | some topic, [] => .explain topic
    | some _, next :: _ => .refuse (.unknownCommand next)
    | none, _ => .refuse (.unknownCommand name)

def Request.ofArguments (arguments : List String) : Request :=
  match readOptions [.verbose, .help, .version] [] arguments with
  | .error .help => .explain .program
  | .error .version => .version
  | .error (.usage reason) => .refuse reason
  | .ok (_, none) => .refuse .missingCommand
  | .ok (_, some (name, rest)) =>
    match name with
    | "sync" =>
      request .sync [.config, .catalog, .dryRun] (fun g => do
        return .sync (← g.require OptionSpec.config.long) (← g.require OptionSpec.catalog.long)
          (g.has OptionSpec.dryRun.long)) rest
    | "legal" =>
      request .legal [.config] (fun g => do return .legal (← g.require OptionSpec.config.long)) rest
    | "check" =>
      request .check [.config, .catalog, .user, .entity, .action] (fun g => do
        return .check (← g.require OptionSpec.config.long) (← g.require OptionSpec.catalog.long)
          (← g.require OptionSpec.user.long) (← g.require OptionSpec.entity.long)
          (← g.require OptionSpec.action.long)) rest
    | "help" => helpRequest rest
    | name => .refuse (.unknownCommand name)

end Warrant.CommandLine
