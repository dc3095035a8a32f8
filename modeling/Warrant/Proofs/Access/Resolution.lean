import Warrant.Access
import Warrant.Proofs.Capability.Grammar
import Warrant.Proofs.Tier

/-!
# What a request comes to

Stopping at the highest tier does not matter: a resolved request reaches a tier just if some grant
reaches it (`le_resolve_iff`). Against a catalog only listed capabilities count, so
`le_tierAgainst_iff` says which capabilities those are, without any text that is not one. Grants and
catalog play the same part in it (`tierAgainst_comm`), so what holds of a union of catalogs holds of
a union of grants.
-/

namespace Warrant.Access

variable {entity action : String} {grants : List String} {g : String} {t : Tier}

theorem le_resolveFrom_iff {best : Tier} :
    t ≤ resolveFrom best entity action grants ↔
      t ≤ best ∨ ∃ g ∈ grants, t ≤ tierOf g entity action := by
  induction grants generalizing best with
  | nil => simp [resolveFrom]
  | cons g gs ih =>
    have hsplit : t ≤ max best (tierOf g entity action) ↔ t ≤ best ∨ t ≤ tierOf g entity action :=
      le_max_iff
    simp only [resolveFrom, List.mem_cons, exists_eq_or_imp]
    split
    · -- Nothing after `g` is read, and nothing could rank higher.
      rename_i hall
      have htop := hsplit.1 (hall ▸ t.le_all)
      rw [hsplit, ← or_assoc]
      exact ⟨.inl, fun _ => htop⟩
    · rw [ih, hsplit, or_assoc]

theorem le_resolve_iff :
    t ≤ resolve grants entity action ↔ t = .none ∨ ∃ g ∈ grants, t ≤ tierOf g entity action := by
  rw [resolve, le_resolveFrom_iff, Tier.le_none_iff]

/-- A tier above the lowest is given by a text that is a capability and applies. -/
theorem le_tierOf_iff (ht : t ≠ .none) :
    t ≤ tierOf g entity action ↔
      ∃ c, Capability.parse g = .ok c ∧ c.covers entity action = true ∧ t ≤ c.tier := by
  unfold tierOf
  cases Capability.parse g with
  | error e => simpa using ht
  | ok c =>
    cases hc : c.covers entity action with
    | false => simpa [hc] using ht
    | true => simp [hc]

theorem le_resolve_iff_covers :
    t ≤ resolve grants entity action ↔ t = .none ∨ ∃ g ∈ grants, ∃ c,
      Capability.parse g = .ok c ∧ c.covers entity action = true ∧ t ≤ c.tier := by
  rw [le_resolve_iff]
  exact or_congr_right' fun ht => exists_congr fun g => and_congr_right fun _ => le_tierOf_iff ht

/-! ### Against a catalog -/

/-- The tier of a request under stored grants, of which only those count that a catalog lists. -/
def tierAgainst (catalog grants : TextSet) (entity action : String) : Tier :=
  resolve (partition grants catalog).1.toList entity action

theorem mem_partition_fst {grants catalog : TextSet} {g : String} :
    g ∈ (partition grants catalog).1 ↔
      g ∈ grants ∧ g ∈ catalog ∧ ∃ c : Capability, g = c.render := by
  simp only [partition, TextSet.mem_filter, isEffective, Bool.and_eq_true, decide_eq_true_eq]
  refine and_congr_right fun _ => ?_
  rw [and_comm]
  refine and_congr_right fun _ => ⟨fun h => ?_, fun h => ?_⟩
  · cases hp : Capability.parse g with
    | error e => rw [hp] at h; cases h
    | ok c => exact ⟨c, Capability.parse_eq_ok_iff.1 hp⟩
  · obtain ⟨c, hc⟩ := h
    rw [hc, Capability.parse_render]
    rfl

/-- A capability that `grants` hold, `catalog` lists and the request falls under. -/
def Applies (catalog grants : TextSet) (entity action : String) (c : Capability) : Prop :=
  c.render ∈ grants ∧ c.render ∈ catalog ∧ c.covers entity action = true

theorem le_tierAgainst_iff {t : Tier} {catalog grants : TextSet} :
    t ≤ tierAgainst catalog grants entity action ↔
      t = .none ∨ ∃ c, Applies catalog grants entity action c ∧ t ≤ c.tier := by
  rw [tierAgainst, le_resolve_iff_covers]
  refine or_congr_right ⟨?_, ?_⟩
  · rintro ⟨g, hg, c, hparse, hcovers, hle⟩
    obtain ⟨hgrants, hcatalog, -⟩ := mem_partition_fst.1 hg
    rw [Capability.parse_eq_ok_iff.1 hparse] at hgrants hcatalog
    exact ⟨c, ⟨hgrants, hcatalog, hcovers⟩, hle⟩
  · rintro ⟨c, ⟨hgrants, hcatalog, hcovers⟩, hle⟩
    have hg : c.render ∈ (partition grants catalog).1 :=
      mem_partition_fst.2 ⟨hgrants, hcatalog, c, rfl⟩
    exact ⟨c.render, hg, c, Capability.parse_render c, hcovers, hle⟩

theorem own_le_tier (c : Capability) : .own ≤ c.tier := by
  unfold Capability.tier
  split <;> decide

theorem all_le_tier_iff {c : Capability} : .all ≤ c.tier ↔ c.broad = true := by
  unfold Capability.tier
  cases c.broad <;> decide

/-! ### More grants and larger catalogs -/

section

variable {s t grants held direct : TextSet}

theorem tierAgainst_mono (h : s ⊆ t) :
    tierAgainst s grants entity action ≤ tierAgainst t grants entity action := by
  rw [le_tierAgainst_iff]
  rcases le_tierAgainst_iff.1 (le_refl (tierAgainst s grants entity action)) with hnone | hsome
  · exact .inl hnone
  · obtain ⟨c, ⟨hgrants, hcatalog, hcovers⟩, hle⟩ := hsome
    exact .inr ⟨c, ⟨hgrants, h _ hcatalog, hcovers⟩, hle⟩

/-- What two catalogs list together permits what one of them permits, and no more. -/
theorem tierAgainst_union :
    tierAgainst (s ∪ t) grants entity action =
      max (tierAgainst s grants entity action) (tierAgainst t grants entity action) := by
  apply le_antisymm
  · rcases le_tierAgainst_iff.1 (le_refl (tierAgainst (s ∪ t) grants entity action)) with
      hnone | hsome
    · rw [hnone]
      exact Tier.none_le _
    · obtain ⟨c, ⟨hgrants, hcatalog, hcovers⟩, hle⟩ := hsome
      rcases TextSet.mem_union.1 hcatalog with hs | ht
      · exact le_max_of_le_left (le_tierAgainst_iff.2 (.inr ⟨c, ⟨hgrants, hs, hcovers⟩, hle⟩))
      · exact le_max_of_le_right (le_tierAgainst_iff.2 (.inr ⟨c, ⟨hgrants, ht, hcovers⟩, hle⟩))
  · refine max_le (tierAgainst_mono fun x hx => ?_) (tierAgainst_mono fun x hx => ?_)
    · exact TextSet.mem_union.2 (.inl hx)
    · exact TextSet.mem_union.2 (.inr hx)

theorem tierAgainst_comm :
    tierAgainst s grants entity action = tierAgainst grants s entity action := by
  refine eq_of_forall_le_iff fun t => ?_
  rw [le_tierAgainst_iff, le_tierAgainst_iff]
  exact or_congr_right <| exists_congr fun c => and_congr_left' and_left_comm

theorem tierAgainst_mono_grants (h : grants ⊆ held) :
    tierAgainst s grants entity action ≤ tierAgainst s held entity action := by
  rw [tierAgainst_comm (s := s), tierAgainst_comm (s := s)]
  exact tierAgainst_mono h

theorem tierAgainst_union_grants :
    tierAgainst s (grants ∪ held) entity action =
      max (tierAgainst s grants entity action) (tierAgainst s held entity action) := by
  simp only [tierAgainst_comm (s := s)]
  exact tierAgainst_union

theorem tierAgainst_merge {roles : List TextSet} :
    tierAgainst s (merge direct roles) entity action =
      (roles.map fun held => tierAgainst s held entity action).foldl max
        (tierAgainst s direct entity action) := by
  induction roles generalizing direct with
  | nil => rfl
  | cons held roles ih =>
    rw [List.map_cons, List.foldl_cons, ← tierAgainst_union_grants]
    exact ih

end

end Warrant.Access
