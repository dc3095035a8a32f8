import Warrant.Config.Reader
import Warrant.Proofs.Config.Violations
import Warrant.Proofs.Except

/-!
# What a rejected configuration is rejected for

An error of a validation comes from one of its checks. The one that calls a grant unreachable comes
from a grant that is well formed and that `Capability.isDerivable` rules out
(`not_derivable_of_parse`).
-/

namespace Warrant.Config

variable {c : Config} {p q : Principal} {text grant refused : String}

theorem Refused.not_derivable (h : Refused q refused (.unreachableGrant p grant)) :
    ∃ cap, Capability.parse grant = .ok cap ∧ cap.isDerivable = false := by
  cases h with
  | unreachable hcap hc => exact ⟨_, hcap, hc⟩

theorem not_derivable_of_validate (h : c.validate = .error (.unreachableGrant p grant)) :
    ∃ cap, Capability.parse grant = .ok cap ∧ cap.isDerivable = false := by
  obtain ⟨place, hbreaks, -⟩ := ((validate_reports c).eq_error_iff Breaks.unique).1 h
  cases hbreaks with
  | roleGrant _ _ hrefused => exact hrefused.not_derivable
  | userGrant _ _ hrefused => exact hrefused.not_derivable

/-- A grant that is rejected as unreachable is well formed, and its capability is ruled out. -/
theorem not_derivable_of_parse (h : parse text = .error (.unreachableGrant p grant)) :
    ∃ cap, Capability.parse grant = .ok cap ∧ cap.isDerivable = false := by
  unfold parse at h
  split at h
  · cases h
  · rcases error_of_bind h with hinvalid | ⟨_, -, hread⟩
    · exact not_derivable_of_validate hinvalid
    · cases hread

end Warrant.Config
