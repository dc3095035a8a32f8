import Warrant.Proofs.Access.Resolution

/-!
# The tier as a maximum

Reading grants one by one and stopping at the highest tier comes to the maximum over all grants that
are capabilities and apply to the request (`resolve_is_maximum`). So the tier of two lists together
is the higher of both, and it matters neither in which order the grants stand, nor how often, nor
which other texts stand between them.
-/

namespace Warrant.Access

variable {entity action : String} {grants xs ys : List String} {t : Tier}

/-- The tiers of the grants that are capabilities and apply to the request. -/
def contributions (grants : List String) (entity action : String) : List Tier :=
  grants.filterMap fun g =>
    match Capability.parse g with
    | .error _ => none
    | .ok c => if c.covers entity action then some c.tier else none

theorem mem_contributions :
    t ∈ contributions grants entity action ↔
      ∃ g ∈ grants, ∃ c, Capability.parse g = .ok c ∧ c.covers entity action = true ∧
        c.tier = t := by
  rw [contributions, List.mem_filterMap]
  refine exists_congr fun g => and_congr_right fun _ => ?_
  cases Capability.parse g with
  | error e => simp
  | ok c => simp

theorem resolve_eq_highest :
    resolve grants entity action =
      (Tier.highest? (contributions grants entity action)).getD .none := by
  refine eq_of_forall_le_iff fun t => ?_
  rw [le_resolve_iff_covers, Tier.le_highest_iff]
  refine or_congr_right ⟨?_, ?_⟩
  · rintro ⟨g, hg, c, hparse, hcovers, hle⟩
    exact ⟨c.tier, mem_contributions.2 ⟨g, hg, c, hparse, hcovers, rfl⟩, hle⟩
  · rintro ⟨_, hu, hle⟩
    obtain ⟨g, hg, c, hparse, hcovers, rfl⟩ := mem_contributions.1 hu
    exact ⟨g, hg, c, hparse, hcovers, hle⟩

theorem resolve_append :
    resolve (xs ++ ys) entity action =
      max (resolve xs entity action) (resolve ys entity action) := by
  refine eq_of_forall_le_iff fun t => ?_
  simp only [le_max_iff, le_resolve_iff, List.mem_append, or_and_right, exists_or]
  exact or_or_distrib_left

theorem resolve_mono (h : ∀ g ∈ xs, (Capability.parse g).isOk = true → g ∈ ys) :
    resolve xs entity action ≤ resolve ys entity action := by
  rcases le_resolve_iff_covers.1 (le_refl (resolve xs entity action)) with
    hnone | ⟨g, hg, c, hparse, hcovers, hle⟩
  · rw [hnone]
    exact Tier.none_le _
  · have hys : g ∈ ys := h g hg (by rw [hparse]; rfl)
    exact le_resolve_iff_covers.2 (.inr ⟨g, hys, c, hparse, hcovers, hle⟩)

theorem resolve_congr (h : ∀ g, (Capability.parse g).isOk = true → (g ∈ xs ↔ g ∈ ys)) :
    resolve xs entity action = resolve ys entity action :=
  le_antisymm (resolve_mono fun g hg hok => (h g hok).1 hg)
    (resolve_mono fun g hg hok => (h g hok).2 hg)

theorem resolve_of_global_mem (h : "*:*:*" ∈ grants) : resolve grants entity action = .all := by
  refine le_antisymm (Tier.le_all _) (le_resolve_iff_covers.2 (.inr ⟨_, h, .global, ?_, rfl, ?_⟩))
  · exact Capability.parse_render .global
  · exact le_refl _

/-- The tier of a request is the maximum over the grants that are capabilities and apply to it, and
the lowest tier if there is none. That of two lists together is the higher of both; lists with the
same capabilities, in any order, any number and between any other texts, give the same; further
grants never lower it, and the global one makes it the highest. -/
theorem resolve_is_maximum (entity action : String) :
    let tier := fun grants => resolve grants entity action
    (∀ grants, tier grants = (Tier.highest? (contributions grants entity action)).getD .none) ∧
    (∀ xs ys, tier (xs ++ ys) = max (tier xs) (tier ys)) ∧
    (∀ xs ys, xs.Perm ys → tier xs = tier ys) ∧
    (∀ xs ys, (∀ g, (Capability.parse g).isOk = true → (g ∈ xs ↔ g ∈ ys)) → tier xs = tier ys) ∧
    (∀ xs ys, xs ⊆ ys → tier xs ≤ tier ys) ∧
    ∀ grants, "*:*:*" ∈ grants → tier grants = .all := by
  refine ⟨fun _ => resolve_eq_highest, fun _ _ => resolve_append, fun xs ys h => ?_,
    fun _ _ => resolve_congr, fun xs ys h => ?_, fun _ => resolve_of_global_mem⟩
  · exact resolve_congr fun g _ => h.mem_iff
  · exact resolve_mono fun g hg _ => h hg

/-- Malformed texts and a repeated grant change nothing, and a request for the wildcard itself falls
under wildcards only. -/
theorem maximum_of_scattered_grants :
    let grants := ["::", "post:edit", "post:edit:mine", "*:edit:*", "post:edit"]
    let bare := ["*:edit:*", "post:edit"]
    (∀ g, (Capability.parse g).isOk = true → (g ∈ grants ↔ g ∈ bare)) ∧
      resolve grants "post" "edit" = resolve bare "post" "edit" ∧
      resolve ["post:edit"] "*" "edit" = .none ∧
      resolve ["post:edit"] "*" "edit" ≤ resolve grants "*" "edit" ∧
      resolve ("*:*:*" :: grants) "a:b" "" = .all := by
  intro grants bare
  have hsame : ∀ g, (Capability.parse g).isOk = true → (g ∈ grants ↔ g ∈ bare) := by
    intro g hg
    have hne : g ≠ "::" ∧ g ≠ "post:edit:mine" := by
      refine ⟨?_, ?_⟩
      all_goals
        rintro rfl
        revert hg
        decide +kernel
    simp only [grants, bare, List.mem_cons, List.not_mem_nil, hne.1, hne.2, false_or, or_false]
    grind
  obtain ⟨-, -, -, hcongr, -, -⟩ := resolve_is_maximum "post" "edit"
  obtain ⟨-, -, -, -, hmono, -⟩ := resolve_is_maximum "*" "edit"
  obtain ⟨-, -, -, -, -, hglobal⟩ := resolve_is_maximum "a:b" ""
  have hheld : ["post:edit"] ⊆ grants := List.cons_subset.2 ⟨by decide +kernel, List.nil_subset _⟩
  exact ⟨hsame, hcongr grants bare hsame, by decide +kernel, hmono _ grants hheld,
    hglobal _ List.mem_cons_self⟩

end Warrant.Access
