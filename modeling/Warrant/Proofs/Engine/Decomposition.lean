import Warrant.Proofs.Engine.Request
import Warrant.Proofs.GrantStore.Change

/-!
# The parts of a tier

Merged grants permit what one of the sets permits, so the tier of a user is the highest of its own
and those of its roles, and the tier against two catalogs together is the higher of both. More
grants, memberships or entries of the catalog never lower a tier, and fewer never raise one
(`tier_decomposes`).
-/

namespace Warrant

namespace GrantStore

variable {g g' : GrantStore} {ch : Change}

def withoutRoles (g : GrantStore) (user : String) : GrantStore :=
  { g with rolesOf := update g.rolesOf user ∅ }

theorem grants_withoutRoles (g : GrantStore) (user : String) :
    (g.withoutRoles user).grants (.user user) = g.direct (.user user) := by
  show grantsThrough _ user (update g.rolesOf user ∅ user) = _
  rw [update_same]
  rfl

/-! ### More and less -/

/-- Whatever one store grants, and whatever membership it has, the other one has too. -/
instance : LE GrantStore where
  le g g' := (∀ p, g.direct p ⊆ g'.direct p) ∧ ∀ user, g.rolesOf user ⊆ g'.rolesOf user

theorem grants_mono (h : g ≤ g') (p : Principal) : g.grants p ⊆ g'.grants p := by
  obtain ⟨hdirect, hroles⟩ := h
  cases p with
  | role id => exact hdirect (.role id)
  | user id =>
    intro s hs
    rw [grants, mem_grantsThrough] at hs ⊢
    rcases hs with hown | ⟨role, hrole, hthrough⟩
    · exact .inl (hdirect _ s hown)
    · exact .inr ⟨role, hroles id role hrole, hdirect _ s hthrough⟩

def Change.Adds : Change → Prop
  | assign .. | addRole .. => True
  | revoke .. | replace .. | removeRole .. => False

def Change.TakesAway : Change → Prop
  | revoke .. | removeRole .. => True
  | assign .. | replace .. | addRole .. => False

theorem le_after (h : ch.Adds) : g ≤ g.after ch := by
  cases ch with
  | assign p c => exact ⟨fun _ _ hs => mem_direct_assign.2 (.inr hs), fun _ _ => id⟩
  | addRole user role => exact ⟨fun _ _ => id, fun _ _ hs => mem_rolesOf_addRole.2 (.inr hs)⟩
  | _ => exact h.elim

theorem after_le (h : ch.TakesAway) : g.after ch ≤ g := by
  cases ch with
  | revoke p grant => exact ⟨fun _ _ hs => (mem_direct_revoke.1 hs).1, fun _ _ => id⟩
  | removeRole user role => exact ⟨fun _ _ => id, fun _ _ hs => (mem_rolesOf_removeRole.1 hs).1⟩
  | _ => exact h.elim

end GrantStore

namespace Engine

open Access GrantStore

variable {κ : Type} [CatalogStore κ] {e : Engine κ} {entity action : String}

/-- What an engine answers to a principal that asks for its tier. -/
def tierFor (e : Engine κ) (p : Principal) (entity action : String) :
    Except (Failure EngineError) Tier :=
  (resolveAccess p entity action e).answer

/-- Whatever is held: the catalog is read, and what it lists decides; if it cannot be read, the
request fails. -/
theorem tierFor_eq (p : Principal) :
    e.tierFor p entity action =
      ((CatalogStore.load e.catalog).answer.mapError (Failure.map EngineError.store)).map
        fun s => tierAgainst s (e.grants.grants p) entity action := by
  cases hload : (CatalogStore.load e.catalog).answer with
  | error f => exact (access_of_load_error p entity action hload).1
  | ok s => exact resolveAccess_of_load p entity action hload

/-- Two requests end alike, but that the second may answer a higher tier. -/
def RanksUpTo : Except (Failure EngineError) Tier → Except (Failure EngineError) Tier → Prop
  | .ok t, .ok t' => t ≤ t'
  | .error f, .error f' => f = f'
  | _, _ => False

theorem ranksUpTo_of_grants {g g' : GrantStore} (h : g ≤ g') (p : Principal) :
    RanksUpTo ({ e with grants := g }.tierFor p entity action)
      ({ e with grants := g' }.tierFor p entity action) := by
  rw [tierFor_eq, tierFor_eq]
  cases (CatalogStore.load e.catalog).answer with
  | error f => exact rfl
  | ok s => exact tierAgainst_mono_grants (grants_mono h p)

/-- A user is answered the highest of what it is answered without any role and of what its roles are
answered. -/
theorem tierFor_user (e : Engine κ) (user : String) :
    e.tierFor (.user user) entity action = do
      let alone ← { e with grants := e.grants.withoutRoles user }.tierFor (.user user) entity action
      let through ← (e.grants.rolesOf user).toList.mapM fun r => e.tierFor (.role r) entity action
      return through.foldl max alone := by
  simp only [tierFor_eq, grants_withoutRoles]
  cases (CatalogStore.load e.catalog).answer with
  | error f => rfl
  | ok s =>
    show Except.ok (tierAgainst s (grantsThrough ..) entity action) =
      (List.mapM (fun r => pure (tierAgainst s (e.grants.direct (.role r)) entity action)) _ >>= _)
    rw [List.mapM_pure, grantsThrough, tierAgainst_merge, List.map_map]
    rfl

/-- As long as the catalog can be read, every request is answered a tier. What a user is answered is
the highest of what it is answered with its direct grants alone and of what each of its roles is
answered; what is answered against two catalogs together is the higher of what is answered against
either. A grant, a membership or an entry of the catalog more never lowers the tier of anyone, and
one less never raises it. -/
theorem tier_decomposes (e : Engine κ) (entity action : String) :
    (∀ p s, (CatalogStore.load e.catalog).answer = .ok s →
      ∃ t, e.tierFor p entity action = .ok t) ∧
    (∀ user, e.tierFor (.user user) entity action = do
      let alone ← { e with grants := e.grants.withoutRoles user }.tierFor (.user user) entity action
      let through ← (e.grants.rolesOf user).toList.mapM fun r => e.tierFor (.role r) entity action
      return through.foldl max alone) ∧
    (∀ p (k₁ k₂ k : κ) s₁ s₂, (CatalogStore.load k₁).answer = .ok s₁ →
      (CatalogStore.load k₂).answer = .ok s₂ → (CatalogStore.load k).answer = .ok (s₁ ∪ s₂) →
        ∃ t₁ t₂, { e with catalog := k₁ }.tierFor p entity action = .ok t₁ ∧
          { e with catalog := k₂ }.tierFor p entity action = .ok t₂ ∧
          { e with catalog := k }.tierFor p entity action = .ok (max t₁ t₂)) ∧
    (∀ p ch,
      let changed := { e with grants := e.grants.after ch }
      (ch.Adds → RanksUpTo (e.tierFor p entity action) (changed.tierFor p entity action)) ∧
        (ch.TakesAway → RanksUpTo (changed.tierFor p entity action) (e.tierFor p entity action))) ∧
    ∀ p (k k' : κ) s s', (CatalogStore.load k).answer = .ok s →
      (CatalogStore.load k').answer = .ok s' → s ⊆ s' →
        RanksUpTo ({ e with catalog := k }.tierFor p entity action)
          ({ e with catalog := k' }.tierFor p entity action) := by
  refine ⟨fun p s hload => ⟨_, resolveAccess_of_load p entity action hload⟩, tierFor_user e, ?_,
    fun p ch => ⟨fun h => ranksUpTo_of_grants (le_after h) p,
      fun h => ranksUpTo_of_grants (after_le h) p⟩, ?_⟩
  · intro p k₁ k₂ k s₁ s₂ h₁ h₂ h
    refine ⟨_, _, resolveAccess_of_load p entity action h₁,
      resolveAccess_of_load p entity action h₂, ?_⟩
    rw [← tierAgainst_union]
    exact resolveAccess_of_load p entity action h
  · intro p k k' s s' h h' hsub
    have hbelow : tierAgainst s (e.grants.grants p) entity action ≤
        tierAgainst s' (e.grants.grants p) entity action := tierAgainst_mono hsub
    rw [tierFor_eq, tierFor_eq, h, h']
    exact hbelow

/-- A user has two roles, one of which was never mentioned; what the other one holds overlaps with
what the user holds itself, and part of it is malformed. The catalog grows by the wide grant, which
the user has through that role only. -/
theorem tier_of_overlapping_roles :
    let grants := GrantStore.ofConfig
      ⟨[], [⟨"editor", ["post:edit:*", "post:edit", "::"]⟩],
        [⟨"ann", ["editor", "ghost"], ["post:edit"]⟩]⟩
    let narrow : MemoryCatalog := ⟨TextSet.ofList ["post:edit", "::"]⟩
    let wide : MemoryCatalog := ⟨TextSet.ofList ["post:edit:*", "::"]⟩
    let both := (CatalogStore.addAll wide.entries narrow).state
    let tier := fun (g : GrantStore) (k : MemoryCatalog) =>
      { new grants both with grants := g, catalog := k }.tierFor (.user "ann") "post" "edit"
    let left := grants.after (.removeRole "ann" "editor")
    tier grants both = .ok .all ∧
      (∃ t₁ t₂, tier grants narrow = .ok t₁ ∧ tier grants wide = .ok t₂ ∧
        tier grants both = .ok (max t₁ t₂)) ∧
      RanksUpTo (tier left both) (tier grants both) ∧ tier left both = .ok .own ∧
      RanksUpTo (tier grants narrow) (tier grants both) := by
  intro grants narrow wide both tier left
  obtain ⟨-, huser, hunion, hchange, hcatalog⟩ :=
    tier_decomposes (new grants both) "post" "edit"
  have hall : tier grants both = .ok .all := (huser "ann").trans (by decide +kernel)
  have hsub : narrow.entries ⊆ narrow.entries ∪ wide.entries := fun x hx =>
    TextSet.mem_union.2 (.inl hx)
  exact ⟨hall, hunion (.user "ann") narrow wide both _ _ rfl rfl rfl,
    (hchange (.user "ann") (.removeRole "ann" "editor")).2 trivial, by decide +kernel,
    hcatalog (.user "ann") narrow both _ _ rfl rfl hsub⟩

end Engine

end Warrant
