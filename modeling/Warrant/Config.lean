import Warrant.Registry
import Warrant.GrantStore
import Warrant.Files.Fault

/-!
# Configurations

A configuration declares the operations of an application, and the roles and users with their
grants. `Config.validate` accepts it if every operation forms a capability, every grant is one that
some registry makes legal, no role and no user is declared twice, and every role that a user names
is declared; otherwise it reports the first violation in a fixed order.
-/

namespace Warrant

structure ActionDecl where
  name : String
  gated : Bool
  multilevel : Bool
deriving DecidableEq, Repr

structure EntityDecl where
  name : String
  actions : List ActionDecl
deriving DecidableEq, Repr

structure RoleDecl where
  id : String
  grants : List String
deriving DecidableEq, Repr

structure UserDecl where
  id : String
  roles : List String
  grants : List String
deriving DecidableEq, Repr

/-- The declarations in the order of the file. -/
structure Config where
  entities : List EntityDecl
  roles : List RoleDecl
  users : List UserDecl
deriving DecidableEq, Repr

/-- What a configuration is rejected for. -/
inductive ConfigError where
  | unreadable (reason : Files.Fault)
  /-- The text is no document of the right shape. -/
  | illFormed
  | invalidGrant (principal : Principal) (reason : GrammarError)
  | unreachableGrant (principal : Principal) (capability : String)
  | unknownRole (user role : String)
  | duplicateRole (id : String)
  | duplicateUser (id : String)
  | invalidOperation (entity action : String) (reason : GrammarError)
deriving DecidableEq, Repr

namespace ConfigError

/-- What an ill-formed text lacks. -/
def shapeReason : String := "no document with entities, roles and users"

def message : ConfigError → String
  | unreadable reason => "failed to read config file: " ++ reason.message
  | illFormed => "failed to parse config TOML: " ++ shapeReason
  | invalidGrant principal reason =>
    "invalid grant for " ++ principal.describe ++ ": " ++ reason.message
  | unreachableGrant principal capability =>
    "grant '" ++ capability ++ "' for " ++ principal.describe ++ " can never be in the catalog"
  | unknownRole user role => "user '" ++ user ++ "' references undefined role '" ++ role ++ "'"
  | duplicateRole id => "role '" ++ id ++ "' is declared more than once"
  | duplicateUser id => "user '" ++ id ++ "' is declared more than once"
  | invalidOperation entity action reason =>
    "invalid operation '" ++ action ++ "' on entity '" ++ entity ++ "': " ++ reason.message

/-- The message of the error behind this one, if there is one. -/
def cause? : ConfigError → Option String
  | unreadable reason => some reason.message
  | illFormed => some shapeReason
  | invalidGrant _ reason => some reason.message
  | invalidOperation _ _ reason => some reason.message
  | _ => none

end ConfigError

namespace Config

def empty : Config := ⟨[], [], []⟩

def operations (c : Config) : List Operation :=
  c.entities.flatMap fun e =>
    e.actions.map fun a => ⟨e.name, a.name, a.gated, a.multilevel⟩

def registry (c : Config) : Registry := ⟨c.operations⟩

/-! ### Validation -/

/-- Does a check for each element and stops at the first error. -/
def each {ε α : Type} (check : α → Except ε Unit) : List α → Except ε Unit
  | [] => .ok ()
  | a :: as => do
    check a
    each check as

/-- An operation whose names form no capability is rejected. -/
def checkOperation (o : Operation) : Except ConfigError Unit :=
  match Capability.narrow o.entity o.action with
  | .ok _ => .ok ()
  | .error reason => .error (.invalidOperation o.entity o.action reason)

/-- The first text that stands earlier in the list already; `seen` stands before the list. -/
def firstRepeated? (seen : List String) : List String → Option String
  | [] => none
  | id :: ids => if id ∈ seen then some id else firstRepeated? (id :: seen) ids

def checkDistinct (error : String → ConfigError) (ids : List String) : Except ConfigError Unit :=
  match firstRepeated? [] ids with
  | some id => .error (error id)
  | none => .ok ()

/-- A grant that is no capability, or none that can become legal, is rejected. -/
def checkGrant (p : Principal) (grant : String) : Except ConfigError Unit :=
  match Capability.parse grant with
  | .error reason => .error (.invalidGrant p reason)
  | .ok c => if c.isDerivable then .ok () else .error (.unreachableGrant p grant)

def checkMembership (declared : List String) (user role : String) : Except ConfigError Unit :=
  if role ∈ declared then .ok () else .error (.unknownRole user role)

/-- The grants of a user are judged before its roles. -/
def checkUser (declared : List String) (u : UserDecl) : Except ConfigError Unit := do
  each (checkGrant (.user u.id)) u.grants
  each (checkMembership declared u.id) u.roles

/-- Accepts the configuration, or reports its first violation: operations come first, then repeated
roles, repeated users, the grants of roles, and the users in their order. -/
def validate (c : Config) : Except ConfigError Unit := do
  each checkOperation c.operations
  checkDistinct .duplicateRole (c.roles.map (·.id))
  checkDistinct .duplicateUser (c.users.map (·.id))
  each (fun r => each (checkGrant (.role r.id)) r.grants) c.roles
  each (checkUser (c.roles.map (·.id))) c.users

end Config

/-- The grants and memberships that a configuration declares; of several declarations of one name
the last counts. -/
def GrantStore.ofConfig (c : Config) : GrantStore :=
  let withRoles := c.roles.foldl
    (fun g r => { g with direct := update g.direct (.role r.id) (TextSet.ofList r.grants) })
    GrantStore.empty
  c.users.foldl
    (fun g u =>
      { direct := update g.direct (.user u.id) (TextSet.ofList u.grants)
        rolesOf := update g.rolesOf u.id (TextSet.ofList u.roles) })
    withRoles

end Warrant
