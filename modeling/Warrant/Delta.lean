import Warrant.TextSet

/-!
# Reconciling a catalog with the legal set

The difference between the legal capabilities and those that a catalog holds is plain data: what to
add and what to remove. `Delta.applyTo` carries it out on a set.
-/

namespace Warrant

/-- What a catalog lacks, and what it has in excess. -/
structure Delta where
  toAdd : TextSet
  toRemove : TextSet
deriving DecidableEq, Repr

namespace Delta

/-- The difference that leads from a catalog to the legal set. -/
def reconcile (legal catalog : TextSet) : Delta := ⟨legal \ catalog, catalog \ legal⟩

def isEmpty (d : Delta) : Bool := d.toAdd.isEmpty && d.toRemove.isEmpty

/-- Whether grants lose their effect. -/
def isLossy (d : Delta) : Bool := !d.toRemove.isEmpty

/-- Adds first and removes then, so that a capability in both sets ends up absent. -/
def applyTo (d : Delta) (catalog : TextSet) : TextSet := (catalog ∪ d.toAdd) \ d.toRemove

@[simp] theorem mem_applyTo {d : Delta} {catalog : TextSet} {x : String} :
    x ∈ d.applyTo catalog ↔ (x ∈ catalog ∨ x ∈ d.toAdd) ∧ x ∉ d.toRemove := by
  simp [applyTo]

theorem union_reconcile (legal catalog : TextSet) :
    catalog ∪ (reconcile legal catalog).toAdd = catalog ∪ legal := by
  ext x
  simp only [reconcile, TextSet.mem_union, TextSet.mem_sdiff]
  by_cases hx : x ∈ catalog <;> simp [hx]

theorem applyTo_reconcile (legal catalog : TextSet) :
    (reconcile legal catalog).applyTo catalog = legal := by
  ext x
  simp only [mem_applyTo, reconcile, TextSet.mem_sdiff]
  grind

end Delta

/-- What a synchronisation changed, or would change in a dry run. -/
structure Report where
  added : TextSet
  removed : TextSet
  dryRun : Bool
deriving DecidableEq, Repr

def Report.isNoop (r : Report) : Bool := r.added.isEmpty && r.removed.isEmpty

end Warrant
