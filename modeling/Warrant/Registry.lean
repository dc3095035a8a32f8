import Warrant.TextSet
import Warrant.Capability

/-!
# Operations and the capabilities they make legal

A registry lists the operations that an application exposes. Each contributes the capabilities that
can be granted for it; together with the global capability they form the legal set, which depends
only on which operations are listed, not on their order or number.
-/

namespace Warrant

/-- One operation of the application. -/
structure Operation where
  entity : String
  action : String
  /-- Whether performing it takes a permission. -/
  gated : Bool
  /-- Whether a grant that reaches every resource makes sense for it. -/
  multilevel : Bool
deriving DecidableEq, Repr

namespace Operation

/-- An operation that takes a permission. -/
def restricted (entity action : String) : Operation := ⟨entity, action, true, false⟩

/-- An operation that anyone may perform. -/
def free (entity action : String) : Operation := ⟨entity, action, false, false⟩

/-- The operation with a wide grant. -/
def widened (o : Operation) : Operation := { o with multilevel := true }

/-- Whether the operation makes any capability legal, its names permitting. -/
def isGrantable (o : Operation) : Bool := o.gated || o.multilevel

/-- The capabilities that the operation makes legal: for a gated one its own capability and that of
all actions on its entity, for a multilevel one the wide grant on its entity, for both also its own
wide grant. An operation whose names form no capability has none. -/
def capabilities (o : Operation) : List String :=
  match Capability.narrow o.entity o.action with
  | .error _ => []
  | .ok exact =>
    (if o.multilevel then [o.entity ++ ":*:*"] else []) ++
    (if o.gated then [exact.render, o.entity ++ ":*"] else []) ++
    (if o.gated && o.multilevel then [exact.render ++ ":*"] else [])

/-- Why a grantable operation is passed over, if it is. -/
def defect? (o : Operation) : Option GrammarError :=
  if o.isGrantable then
    match Capability.narrow o.entity o.action with
    | .error e => some e
    | .ok _ => none
  else none

end Operation

/-- The operations of an application, in the order of their registration. -/
structure Registry where
  operations : List Operation
deriving DecidableEq, Repr

namespace Registry

def empty : Registry := ⟨[]⟩

def register (r : Registry) (o : Operation) : Registry := ⟨r.operations ++ [o]⟩

def extend (r : Registry) (os : List Operation) : Registry := ⟨r.operations ++ os⟩

def size (r : Registry) : Nat := r.operations.length

def isEmpty (r : Registry) : Bool := r.operations.isEmpty

/-- The legal capabilities. -/
def legal (r : Registry) : TextSet :=
  TextSet.ofList (Capability.global.render :: r.operations.flatMap Operation.capabilities)

def defects (r : Registry) : List (Operation × GrammarError) :=
  r.operations.filterMap fun o => o.defect?.map (o, ·)

theorem mem_legal {r : Registry} {s : String} :
    s ∈ r.legal ↔ s = Capability.global.render ∨ ∃ o ∈ r.operations, s ∈ o.capabilities := by
  simp [legal, List.mem_flatMap]

end Registry

end Warrant
