import Warrant.Principal
import Warrant.Capability

/-!
# Access tiers

A request ends in one of three tiers, `none < own < all`. A permitted request comes with the scope
that the caller has to apply.
-/

namespace Warrant

/-- The outcome of an access check. -/
inductive Tier where
  /-- Rejected. -/
  | none
  /-- Permitted on what the requesting principal owns. -/
  | own
  /-- Permitted on everything. -/
  | all
deriving DecidableEq, Repr, Inhabited

namespace Tier

def rank : Tier → Nat
  | none => 0
  | own => 1
  | all => 2

theorem rank_inj {a b : Tier} : a.rank = b.rank ↔ a = b := by
  cases a <;> cases b <;> decide

instance : LE Tier := ⟨fun a b => a.rank ≤ b.rank⟩
instance : LT Tier := ⟨fun a b => a.rank < b.rank⟩
instance (a b : Tier) : Decidable (a ≤ b) := inferInstanceAs (Decidable (a.rank ≤ b.rank))
instance (a b : Tier) : Decidable (a < b) := inferInstanceAs (Decidable (a.rank < b.rank))
instance : Max Tier := ⟨fun a b => if a ≤ b then b else a⟩
instance : Min Tier := ⟨fun a b => if a ≤ b then a else b⟩

theorem le_def {a b : Tier} : a ≤ b ↔ a.rank ≤ b.rank := Iff.rfl

def highest? : List Tier → Option Tier
  | [] => Option.none
  | t :: ts => some (ts.foldl max t)

def name : Tier → String
  | none => "none"
  | own => "own"
  | all => "all"

def isPermitted (t : Tier) : Bool := none < t

end Tier

def Capability.tier (c : Capability) : Tier := if c.broad then .all else .own

/-- How a permitted operation is constrained. -/
inductive Scope where
  /-- Only what `owner` owns. -/
  | owned (owner : Principal)
  | unrestricted
deriving DecidableEq, Repr

namespace Scope

def owner? : Scope → Option Principal
  | owned owner => some owner
  | unrestricted => Option.none

/-- Whether what `owner` owns lies inside the scope. -/
def admits : Scope → Principal → Bool
  | owned required, owner => required = owner
  | unrestricted, _ => true

end Scope

/-- The scope that a tier gives to a principal; a rejection has none. -/
def Tier.scopeFor? : Tier → Principal → Option Scope
  | .none, _ => Option.none
  | .own, p => some (.owned p)
  | .all, _ => some .unrestricted

end Warrant
