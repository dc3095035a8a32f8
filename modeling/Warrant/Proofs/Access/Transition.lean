import Warrant.Proofs.Access.Resolution
import Warrant.Proofs.Catalog.Law
import Warrant.Registry

/-!
# Requests while a difference is carried out

A tier grows with the catalog, and over a union it is the higher of the two (`tierAgainst_union`).
Additions come before removals, so every catalog on the way lies above the old one or above the
legal one, and below both together: no request ranks lower than before and after, and none ranks
higher (`tier_during_apply`).
-/

namespace Warrant

namespace Delta

/-- A catalog that carrying out a difference may pass through: not yet all additions are made, or
all are and some removals. -/
def Passes (d : Delta) (before mid : TextSet) : Prop :=
  (∃ s, s ⊆ d.toAdd ∧ mid = before ∪ s) ∨ ∃ s, s ⊆ d.toRemove ∧ mid = (before ∪ d.toAdd) \ s

variable {d : Delta} {before mid legal : TextSet}

theorem passes_before : d.Passes before before := by
  refine .inl ⟨∅, fun x hx => absurd hx (TextSet.not_mem_empty x), ?_⟩
  ext x
  simp

theorem passes_added : d.Passes before (before ∪ d.toAdd) := .inl ⟨d.toAdd, fun _ => id, rfl⟩

theorem passes_applyTo : d.Passes before (d.applyTo before) := .inr ⟨d.toRemove, fun _ => id, rfl⟩

/-- However carrying out a difference ends, with whatever faults, it leaves such a catalog. -/
theorem passes_of_apply (faults : List Fault) :
    d.Passes before
      (apply d (⟨faults, ⟨before⟩⟩ : FaultyCatalog MemoryCatalog)).state.inner.entries := by
  have hends := apply_ends (FaultyCatalog.law faults MemoryCatalog.law) (d := d)
    (k := ⟨faults, ⟨before⟩⟩) ⟨rfl, rfl⟩
  cases ha : (apply d (⟨faults, ⟨before⟩⟩ : FaultyCatalog MemoryCatalog)).answer with
  | ok a =>
    have hleft := (hends.of_ok ha).2
    rw [show _ = _ from hleft]
    exact passes_applyTo
  | error f =>
    rcases hends.of_error ha with ⟨-, ⟨-, hleft⟩ | hfalse⟩ | ⟨-, ⟨-, hleft⟩ | hfalse⟩
    · rw [show _ = _ from hleft]
      exact passes_before
    · exact hfalse.elim
    · rw [show _ = _ from hleft]
      exact passes_added
    · exact hfalse.elim

theorem Passes.subset_union (h : (reconcile legal before).Passes before mid) :
    mid ⊆ before ∪ legal := by
  intro x hx
  rw [TextSet.mem_union]
  rcases h with ⟨s, hs, rfl⟩ | ⟨s, -, rfl⟩
  · rcases TextSet.mem_union.1 hx with hx | hx
    · exact .inl hx
    · exact .inr (TextSet.mem_sdiff.1 (hs x hx)).1
  · rcases TextSet.mem_union.1 (TextSet.mem_sdiff.1 hx).1 with hx | hx
    · exact .inl hx
    · exact .inr (TextSet.mem_sdiff.1 hx).1

/-- Until the additions are made nothing old is missing, and from then on nothing legal is. -/
theorem Passes.subset (h : (reconcile legal before).Passes before mid) :
    before ⊆ mid ∨ legal ⊆ mid := by
  rcases h with ⟨s, -, rfl⟩ | ⟨s, hs, rfl⟩
  · exact .inl fun x hx => TextSet.mem_union.2 (.inl hx)
  · refine .inr fun x hx => TextSet.mem_sdiff.2 ⟨?_, fun hxs => ?_⟩
    · by_cases hb : x ∈ before
      · exact TextSet.mem_union.2 (.inl hb)
      · exact TextSet.mem_union.2 (.inr (TextSet.mem_sdiff.2 ⟨hx, hb⟩))
    · exact (TextSet.mem_sdiff.1 (hs x hxs)).2 hx

end Delta

namespace Access

/-- While a catalog is brought in line with a registry, and wherever that stops, no request ranks
below both its old and its new tier nor above both, so that none is denied or permitted that is so
neither before nor after. -/
theorem tier_during_apply (r : Registry) (before grants : TextSet) (entity action : String) :
    let d := Delta.reconcile r.legal before
    let tier := fun catalog => tierAgainst catalog grants entity action
    (∀ faults, d.Passes before
      (d.apply (⟨faults, ⟨before⟩⟩ : FaultyCatalog MemoryCatalog)).state.inner.entries) ∧
    tier (before ∪ d.toAdd) = max (tier before) (tier r.legal) ∧
    ∀ mid, d.Passes before mid →
      min (tier before) (tier r.legal) ≤ tier mid ∧
      tier mid ≤ max (tier before) (tier r.legal) ∧
      ((tier before).isPermitted = true → (tier r.legal).isPermitted = true →
        (tier mid).isPermitted = true) ∧
      ((tier before).isPermitted = false → (tier r.legal).isPermitted = false →
        (tier mid).isPermitted = false) := by
  intro d tier
  have hadded : tier (before ∪ d.toAdd) = max (tier before) (tier r.legal) := by
    show tierAgainst (before ∪ (Delta.reconcile r.legal before).toAdd) grants entity action = _
    rw [Delta.union_reconcile, tierAgainst_union]
  refine ⟨Delta.passes_of_apply, hadded, fun mid hmid => ?_⟩
  have hlow : min (tier before) (tier r.legal) ≤ tier mid := by
    rcases hmid.subset with hbefore | hlegal
    · exact min_le_of_left_le (tierAgainst_mono hbefore)
    · exact min_le_of_right_le (tierAgainst_mono hlegal)
  have hhigh : tier mid ≤ max (tier before) (tier r.legal) := by
    have hunion : tier mid ≤ tier (before ∪ r.legal) := tierAgainst_mono hmid.subset_union
    rw [show tier (before ∪ r.legal) = _ from tierAgainst_union] at hunion
    exact hunion
  refine ⟨hlow, hhigh, fun hb hl => ?_, fun hb hl => ?_⟩
  · rw [Tier.isPermitted_iff] at hb hl ⊢
    exact (le_min hb hl).trans hlow
  · rw [Tier.isPermitted_eq_false_iff] at hb hl ⊢
    rw [hb, hl] at hhigh
    exact Tier.le_none_iff.1 hhigh

/-- An operation ceases to be multilevel while its narrow grant comes in: the wide grant still
counts before the removals, and at no moment is the request denied. -/
theorem permitted_while_narrowed :
    let r : Registry := ⟨[⟨"post", "delete", true, false⟩]⟩
    let before := TextSet.ofList ["post:delete:*", "::"]
    let grants := TextSet.ofList ["post:delete", "post:delete:*"]
    let mid := before ∪ TextSet.ofList ["post:delete"]
    let tier := fun catalog => tierAgainst catalog grants "post" "delete"
    (Delta.reconcile r.legal before).Passes before mid ∧ tier before = .all ∧ tier r.legal = .own ∧
      .own ≤ tier mid ∧ (tier mid).isPermitted = true := by
  intro r before grants mid tier
  have hpasses : (Delta.reconcile r.legal before).Passes before mid := by
    refine .inl ⟨_, fun x hx => ?_, rfl⟩
    rw [TextSet.mem_ofList, List.mem_singleton] at hx
    rw [hx]
    decide +kernel
  have hbefore : tier before = .all := by decide +kernel
  have hlegal : tier r.legal = .own := by decide +kernel
  obtain ⟨-, -, hmid⟩ := tier_during_apply r before grants "post" "delete"
  obtain ⟨hlow, -, hpermitted, -⟩ := hmid mid hpasses
  have hmin : min (tier before) (tier r.legal) ≤ tier mid := hlow
  rw [hbefore, hlegal] at hmin
  have htrue : (tier mid).isPermitted = true :=
    hpermitted (congrArg Tier.isPermitted hbefore) (congrArg Tier.isPermitted hlegal)
  exact ⟨hpasses, hbefore, hlegal, hmin, htrue⟩

end Access

end Warrant
