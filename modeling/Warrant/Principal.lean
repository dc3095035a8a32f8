/-!
# Principals

A principal holds grants. Users and roles have names of their own: a user and a role of one name
are different principals.
-/

namespace Warrant

/-- A holder of grants. -/
inductive Principal where
  | user (id : String)
  | role (id : String)
deriving DecidableEq, Repr

namespace Principal

def id : Principal → String
  | user id => id
  | role id => id

/-- The text that names a principal in messages. -/
def describe : Principal → String
  | user id => "user '" ++ id ++ "'"
  | role id => "role '" ++ id ++ "'"

/-- Users before roles, then by name. -/
def le : Principal → Principal → Bool
  | user a, user b => a ≤ b
  | user _, role _ => true
  | role _, user _ => false
  | role a, role b => a ≤ b

end Principal

end Warrant
