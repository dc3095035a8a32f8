import Warrant.Config
import Warrant.Toml.Reader
import Warrant.Files.Tree

/-!
# Reading configurations

A configuration is a TOML document with the arrays `entities`, `roles` and `users`. A record may be
a table, whose other keys are ignored, or an array of its values in their order, where values at the
end may be left out or be too many. A text that has not this shape is ill formed; only one that has
is validated.
-/

namespace Warrant.Config

open Toml (Value)

/-- The values of a record by the order of its names, as far as they are given. -/
def slots? (names : List String) : Value → Option (List (Option Value))
  | .table entries => some (names.map fun n => (entries.find? fun e => e.1 = n).map (·.2))
  | .array items => some ((List.range names.length).map fun i => items[i]?)
  | _ => none

def text? : Value → Option String
  | .text s => some s
  | _ => none

def flag? : Value → Option Bool
  | .flag b => some b
  | _ => none

def items? {α : Type} (item? : Value → Option α) : Value → Option (List α)
  | .array items => items.mapM item?
  | _ => none

def orDefault? {α : Type} (read? : Value → Option α) (default : α) : Option Value → Option α
  | none => some default
  | some v => read? v

def action? (v : Value) : Option ActionDecl := do
  match ← slots? ["name", "requires_permission", "multilevel"] v with
  | [some name, gated, multilevel] =>
    return ⟨← text? name, ← orDefault? flag? true gated, ← orDefault? flag? false multilevel⟩
  | _ => none

def entity? (v : Value) : Option EntityDecl := do
  match ← slots? ["name", "actions"] v with
  | [some name, actions] => return ⟨← text? name, ← orDefault? (items? action?) [] actions⟩
  | _ => none

def role? (v : Value) : Option RoleDecl := do
  match ← slots? ["id", "grants"] v with
  | [some id, grants] => return ⟨← text? id, ← orDefault? (items? text?) [] grants⟩
  | _ => none

def user? (v : Value) : Option UserDecl := do
  match ← slots? ["id", "roles", "grants"] v with
  | [some id, roles, grants] =>
    return ⟨← text? id, ← orDefault? (items? text?) [] roles, ← orDefault? (items? text?) [] grants⟩
  | _ => none

def ofToml? (v : Value) : Option Config := do
  match ← slots? ["entities", "roles", "users"] v with
  | [entities, roles, users] =>
    return ⟨← orDefault? (items? entity?) [] entities, ← orDefault? (items? role?) [] roles,
      ← orDefault? (items? user?) [] users⟩
  | _ => none

/-- The configuration that a text describes, not validated. -/
def read? (text : String) : Option Config := do
  ofToml? (.table (← Toml.parse? text))

def parse (text : String) : Except ConfigError Config :=
  match read? text with
  | none => .error .illFormed
  | some c => do
    c.validate
    return c

def ofFile (files : Files.Tree) (path : String) : Except ConfigError Config :=
  match files.readText path with
  | .error reason => .error (.unreadable reason)
  | .ok text => parse text

end Warrant.Config
