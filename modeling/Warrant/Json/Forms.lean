import Warrant.Json.Reader
import Warrant.Json.Writer
import Warrant.Registry
import Warrant.Delta
import Warrant.Tier

/-!
# The JSON forms of the domain

Each type has one written form and may be read from several: a record from an object with its
members in any order and others besides, or from an array of exactly its values; a set from an array
in any order, with repetitions. Nothing is converted: a number is no text.
-/

namespace Warrant.Json

/-- How a type is written and read. -/
class Form (α : Type) where
  write : α → Value
  read? : Value → Option α

/-- The compact text of a value. -/
def print {α : Type} [Form α] (a : α) : String := (Form.write a).compact

def parse? (α : Type) [Form α] (text : String) : Option α := Value.parse? text >>= Form.read?

/-! ### Basic types -/

instance : Form String where
  write := .text
  read?
    | .string content => content
    | _ => none

instance : Form Bool where
  write := .bool
  read?
    | .bool b => some b
    | _ => none

instance : Form TextSet where
  write s := .texts s.toList
  read?
    | .array items => (items.mapM Form.read?).map TextSet.ofList
    | _ => none

/-! ### Records -/

/-- The value of the only member of a name. -/
def member? (members : List (String × Value)) (name : String) : Option Value :=
  match members.filter fun m => m.1 = name with
  | [(_, v)] => some v
  | _ => none

/-- The values of a record, in the order of the names. -/
def fields? (names : List String) : Value → Option (List Value)
  | .object members => do
    let members ← members.mapM fun m => m.1.map fun key => (key, m.2)
    names.mapM (member? members)
  | .array items => if items.length = names.length then some items else none
  | _ => none

/-- The name of a choice: the text itself, or an object whose one member has it and no content. -/
def choice? : Value → Option String
  | .string content => content
  | .object [(key, .null)] => key
  | _ => none

/-- The name of a choice in a record: the values of an array leave no room for the object. -/
def choiceWithin? : Value → Value → Option String
  | .array _, v => Form.read? v
  | _, v => choice? v

instance : Form Capability where
  write c := .text c.render
  read? v := do
    let text ← Form.read? v
    (Capability.parse text).toOption

instance : Form Principal where
  write
    | .user id => .record [("kind", .text "user"), ("id", .text id)]
    | .role id => .record [("kind", .text "role"), ("id", .text id)]
  read? v := do
    match ← fields? ["kind", "id"] v with
    | [kind, id] =>
      let id ← Form.read? id
      match ← choiceWithin? v kind with
      | "user" => return .user id
      | "role" => return .role id
      | _ => none
    | _ => none

instance : Form Tier where
  write t := .text t.name
  read? v := do
    match ← choice? v with
    | "none" => return .none
    | "own" => return .own
    | "all" => return .all
    | _ => none

instance : Form Operation where
  write o := .record [("entity", .text o.entity), ("action", .text o.action),
    ("requires_permission", .bool o.gated), ("multilevel", .bool o.multilevel)]
  read? v := do
    match ← fields? ["entity", "action", "requires_permission", "multilevel"] v with
    | [entity, action, gated, multilevel] =>
      return ⟨← Form.read? entity, ← Form.read? action, ← Form.read? gated,
        ← Form.read? multilevel⟩
    | _ => none

instance : Form Delta where
  write d := .record [("to_add", Form.write d.toAdd), ("to_remove", Form.write d.toRemove)]
  read? v := do
    match ← fields? ["to_add", "to_remove"] v with
    | [toAdd, toRemove] => return ⟨← Form.read? toAdd, ← Form.read? toRemove⟩
    | _ => none

instance : Form Report where
  write r := .record [("added", Form.write r.added), ("removed", Form.write r.removed),
    ("dry_run", .bool r.dryRun)]
  read? v := do
    match ← fields? ["added", "removed", "dry_run"] v with
    | [added, removed, dryRun] =>
      return ⟨← Form.read? added, ← Form.read? removed, ← Form.read? dryRun⟩
    | _ => none

end Warrant.Json
