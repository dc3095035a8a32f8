import Warrant.Access

/-!
# The grant store

Who holds which grants, and which roles each user belongs to. A principal that was never mentioned
holds nothing, and a user that was never mentioned belongs to no role.
-/

namespace Warrant

def update {α β : Type} [DecidableEq α] (f : α → β) (a : α) (b : β) : α → β :=
  fun x => if x = a then b else f x

@[simp] theorem update_same {α β : Type} [DecidableEq α] (f : α → β) (a : α) (b : β) :
    update f a b a = b := if_pos rfl

@[simp] theorem update_of_ne {α β : Type} [DecidableEq α] (f : α → β) {a x : α} (b : β)
    (h : x ≠ a) : update f a b x = f x := if_neg h

/-- Direct grants by principal, and roles by user. -/
structure GrantStore where
  direct : Principal → TextSet
  rolesOf : String → TextSet

namespace GrantStore

def empty : GrantStore := ⟨fun _ => ∅, fun _ => ∅⟩

instance : Inhabited GrantStore := ⟨empty⟩

/-- The grants of a user that is taken to belong to given roles. -/
def grantsThrough (g : GrantStore) (user : String) (roles : TextSet) : TextSet :=
  Access.merge (g.direct (.user user)) (roles.toList.map fun r => g.direct (.role r))

theorem mem_grantsThrough {g : GrantStore} {user : String} {roles : TextSet} {x : String} :
    x ∈ g.grantsThrough user roles ↔
      x ∈ g.direct (.user user) ∨ ∃ r ∈ roles, x ∈ g.direct (.role r) := by
  simp only [grantsThrough, Access.mem_merge, List.mem_map]
  refine or_congr_right ⟨fun h => ?_, fun h => ?_⟩
  · obtain ⟨_, ⟨r, hr, rfl⟩, hx⟩ := h
    exact ⟨r, hr, hx⟩
  · obtain ⟨r, hr, hx⟩ := h
    exact ⟨_, ⟨r, hr, rfl⟩, hx⟩

/-- All grants of a principal: a user has those of its roles besides its own. The roles are read
first, the grants then. -/
def grants (g : GrantStore) : Principal → TextSet
  | .role id => g.direct (.role id)
  | .user id => g.grantsThrough id (g.rolesOf id)

def assign (g : GrantStore) (p : Principal) (c : Capability) : Bool × GrantStore :=
  (c.render ∉ g.direct p, { g with direct := update g.direct p ((g.direct p).insert c.render) })

/-- Takes back a grant by its text; answers whether it was there. -/
def revoke (g : GrantStore) (p : Principal) (grant : String) : Bool × GrantStore :=
  (grant ∈ g.direct p, { g with direct := update g.direct p ((g.direct p).erase grant) })

def replace (g : GrantStore) (p : Principal) (cs : List Capability) : GrantStore :=
  { g with direct := update g.direct p (TextSet.ofList (cs.map Capability.render)) }

def addRole (g : GrantStore) (user role : String) : Bool × GrantStore :=
  (role ∉ g.rolesOf user,
    { g with rolesOf := update g.rolesOf user ((g.rolesOf user).insert role) })

def removeRole (g : GrantStore) (user role : String) : Bool × GrantStore :=
  (role ∈ g.rolesOf user,
    { g with rolesOf := update g.rolesOf user ((g.rolesOf user).erase role) })

end GrantStore

end Warrant
