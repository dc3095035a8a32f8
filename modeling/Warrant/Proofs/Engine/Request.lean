import Warrant.Engine
import Warrant.Proofs.Access.Resolution
import Warrant.Proofs.Call

/-!
# Requests to an engine

A request reads the catalog once. What it answers is the tier against the set that was read, and
the scope of a permitted request is that of its tier.
-/

namespace Warrant.Engine

variable {κ : Type} [CatalogStore κ] (p : Principal) (entity action : String) {e : Engine κ}

def afterLoad (e : Engine κ) : Engine κ :=
  { e with catalog := (CatalogStore.load e.catalog).state }

theorem resolveAccess_ends (e : Engine κ) :
    (resolveAccess p entity action).Ends e
      (fun t e' => ∃ s, (CatalogStore.load e.catalog).answer = .ok s ∧
        t = Access.tierAgainst s (e.grants.grants p) entity action ∧ e' = e.afterLoad)
      (fun f e' => ∃ f', (CatalogStore.load e.catalog).answer = .error f' ∧
        f = f'.map .store ∧ e' = e.afterLoad) := by
  unfold resolveAccess
  refine Call.ends_read_bind.2 ?_
  refine Call.Ends.bind
    ((Call.ends_self CatalogStore.load e.catalog).onPart.mono (fun _ _ => id) ?_) ?_
  · rintro _ _ ⟨f', k', ⟨hf, rfl⟩, rfl, rfl⟩
    exact ⟨f', hf, rfl, rfl⟩
  · -- Whether ignored grants are reported makes no difference to the answer.
    rintro s e' ⟨k', ⟨hs, rfl⟩, rfl⟩
    dsimp only
    split
    · exact ⟨s, hs, rfl, rfl⟩
    · exact ⟨s, hs, rfl, rfl⟩

theorem resolveAccess_of_load {s : TextSet}
    (h : (CatalogStore.load e.catalog).answer = .ok s) :
    (resolveAccess p entity action e).answer =
      .ok (Access.tierAgainst s (e.grants.grants p) entity action) := by
  have hends := resolveAccess_ends p entity action e
  cases ha : (resolveAccess p entity action e).answer with
  | ok t =>
    obtain ⟨s', hs', rfl, -⟩ := hends.of_ok ha
    cases h.symm.trans hs'
    rfl
  | error f =>
    obtain ⟨f', hf', -⟩ := hends.of_error ha
    cases h.symm.trans hf'

variable {p entity action} in
/-- A denial is the answer of a request without a tier, and any other tier answers its scope. -/
theorem authorize_of_resolve {t : Tier} (h : (resolveAccess p entity action e).answer = .ok t) :
    (authorize p entity action e).answer =
      match t.scopeFor? p with
      | some scope => .ok scope
      | none => .error (.error (.accessDenied p entity action)) := by
  unfold authorize
  rw [Call.bind_of_ok (show resolveAccess p entity action e = ⟨.ok t, _, _⟩ by rw [← h])]
  cases t <;> rfl

theorem access_of_load_error {f : Failure StoreError}
    (h : (CatalogStore.load e.catalog).answer = .error f) :
    (resolveAccess p entity action e).answer = .error (f.map .store) ∧
      (authorize p entity action e).answer = .error (f.map .store) := by
  have hresolve : (resolveAccess p entity action).Ends e (fun _ _ => False)
      (fun f' _ => f' = f.map .store) := by
    refine (resolveAccess_ends p entity action e).mono ?_ ?_
    · rintro _ _ ⟨s, hs, -⟩
      cases h.symm.trans hs
    · rintro _ _ ⟨f', hf, rfl, -⟩
      cases h.symm.trans hf
      rfl
  have hauthorize : (authorize p entity action).Ends e (fun _ _ => False)
      (fun f' _ => f' = f.map .store) := hresolve.bind fun _ _ => False.elim
  obtain ⟨_, hresolved, rfl⟩ := hresolve.fails fun _ _ => id
  obtain ⟨_, hauthorized, rfl⟩ := hauthorize.fails fun _ _ => id
  exact ⟨hresolved, hauthorized⟩

end Warrant.Engine
