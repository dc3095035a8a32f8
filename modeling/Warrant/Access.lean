import Warrant.TextSet
import Warrant.Tier

/-!
# Resolving requests

Grants are stored as texts and need not be well formed. A request gets the highest tier that any of
them gives; a text that is no capability gives none. `Access.partition` separates the grants that
are in effect from those that are not.
-/

namespace Warrant.Access

/-- The tier that one stored text gives to a request. -/
def tierOf (grant entity action : String) : Tier :=
  match Capability.parse grant with
  | .error _ => .none
  | .ok c => if c.covers entity action then c.tier else .none

/-- The highest of `best` and the tiers that the grants give; nothing is read past the highest. -/
def resolveFrom (best : Tier) (entity action : String) : List String → Tier
  | [] => best
  | grant :: grants =>
    let best := max best (tierOf grant entity action)
    if best = .all then best else resolveFrom best entity action grants

def resolve (grants : List String) (entity action : String) : Tier :=
  resolveFrom .none entity action grants

/-- The direct grants of a principal together with those of its roles. -/
def merge (direct : TextSet) (roles : List TextSet) : TextSet :=
  roles.foldl (· ∪ ·) direct

@[simp] theorem mem_merge {direct : TextSet} {roles : List TextSet} {x : String} :
    x ∈ merge direct roles ↔ x ∈ direct ∨ ∃ r ∈ roles, x ∈ r :=
  TextSet.mem_foldl_union

/-- A grant is in effect if it is a capability and the catalog lists it. -/
def isEffective (catalog : TextSet) (grant : String) : Bool :=
  (Capability.parse grant).isOk && grant ∈ catalog

/-- The grants in effect, and the others. -/
def partition (grants catalog : TextSet) : TextSet × TextSet :=
  (grants.filter (isEffective catalog), grants.filter (!isEffective catalog ·))

end Warrant.Access
