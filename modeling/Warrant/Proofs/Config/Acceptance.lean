import Mathlib.Data.List.Nodup
import Warrant.Config.Reader
import Warrant.Proofs.Capability.Grammar
import Warrant.Proofs.Config.Declaration
import Warrant.Proofs.Except

/-!
# What an accepted configuration declares

A validation that accepts has found nothing against any declaration (`validate_eq_ok_iff`). So every
grant that an accepted configuration declares is the text of a capability
(`exists_capability_of_declares`), and these are the grants that its store begins with.
-/

namespace Warrant.Config

variable {ε α : Type} {config : Config} {p : Principal} {grant text : String}

theorem each_eq_ok_iff {check : α → Except ε Unit} {xs : List α} :
    each check xs = .ok () ↔ ∀ x ∈ xs, check x = .ok () := by
  induction xs with
  | nil => exact iff_of_true rfl fun _ => nofun
  | cons x xs ih => rw [each, then_eq_ok_iff, ih, List.forall_mem_cons]

theorem checkGrant_eq_ok_iff :
    checkGrant p grant = .ok () ↔ ∃ c, Capability.parse grant = .ok c ∧ c.isDerivable = true := by
  unfold checkGrant
  cases hparse : Capability.parse grant with
  | error reason => simp
  | ok c => simp

theorem validate_eq_ok_iff :
    config.validate = .ok () ↔
      (∀ o ∈ config.operations, checkOperation o = .ok ()) ∧
      checkDistinct .duplicateRole (config.roles.map (·.id)) = .ok () ∧
      checkDistinct .duplicateUser (config.users.map (·.id)) = .ok () ∧
      (∀ r ∈ config.roles, ∀ g ∈ r.grants, checkGrant (.role r.id) g = .ok ()) ∧
      ∀ u ∈ config.users, (∀ g ∈ u.grants, checkGrant (.user u.id) g = .ok ()) ∧
        ∀ role ∈ u.roles, checkMembership (config.roles.map (·.id)) u.id role = .ok () := by
  unfold validate checkUser
  simp only [then_eq_ok_iff, each_eq_ok_iff]

theorem validate_of_parse (h : parse text = .ok config) : config.validate = .ok () := by
  unfold parse at h
  split at h
  · cases h
  · obtain ⟨hvalid, hread⟩ := then_eq_ok_iff.1 h
    cases hread
    exact hvalid

/-! ### Declared grants -/

/-- A declaration of the principal lists the grant. -/
def Declares (config : Config) (p : Principal) (grant : String) : Prop :=
  (∃ r ∈ config.roles, p = .role r.id ∧ grant ∈ r.grants) ∨
    ∃ u ∈ config.users, p = .user u.id ∧ grant ∈ u.grants

theorem exists_capability_of_declares (hvalid : config.validate = .ok ())
    (h : config.Declares p grant) : ∃ c, Capability.parse grant = .ok c ∧ c.isDerivable = true := by
  obtain ⟨-, -, -, hroles, husers⟩ := validate_eq_ok_iff.1 hvalid
  rcases h with ⟨r, hr, -, hgrant⟩ | ⟨u, hu, -, hgrant⟩
  · exact checkGrant_eq_ok_iff.1 (hroles r hr grant hgrant)
  · exact checkGrant_eq_ok_iff.1 ((husers u hu).1 grant hgrant)

theorem declares_of_mem_direct (h : grant ∈ (GrantStore.ofConfig config).direct p) :
    config.Declares p grant := by
  rcases GrantStore.mem_direct_ofConfig.1 h with ⟨r, hr, hgrant⟩ | ⟨u, hu, hgrant⟩
  · exact .inl ⟨r, hr.mem, hr.key_eq.symm, hgrant⟩
  · exact .inr ⟨u, hu.mem, hu.key_eq.symm, hgrant⟩

/-! ### Where nothing is declared twice -/

/-- A declaration of the user lists the grant, or one of a role that the user names does. -/
def Entitles (config : Config) (user grant : String) : Prop :=
  config.Declares (.user user) grant ∨
    ∃ u ∈ config.users, u.id = user ∧ ∃ role ∈ u.roles, config.Declares (.role role) grant

variable (hroles : (config.roles.map (·.id)).Nodup) (husers : (config.users.map (·.id)).Nodup)

include hroles husers

theorem mem_direct_iff_declares :
    grant ∈ (GrantStore.ofConfig config).direct p ↔ config.Declares p grant := by
  refine ⟨declares_of_mem_direct, fun h => GrantStore.mem_direct_ofConfig.2 ?_⟩
  have hroles' : (config.roles.map (Principal.role ·.id)).Nodup := by
    have hmap := List.Nodup.map (fun _ _ => Principal.role.inj) hroles
    rwa [List.map_map] at hmap
  have husers' : (config.users.map (Principal.user ·.id)).Nodup := by
    have hmap := List.Nodup.map (fun _ _ => Principal.user.inj) husers
    rwa [List.map_map] at hmap
  rcases h with ⟨r, hr, rfl, hgrant⟩ | ⟨u, hu, rfl, hgrant⟩
  · exact .inl ⟨r, (isLast_iff_of_nodup hroles').2 ⟨hr, rfl⟩, hgrant⟩
  · exact .inr ⟨u, (isLast_iff_of_nodup husers').2 ⟨hu, rfl⟩, hgrant⟩

theorem mem_grants_iff_entitles {user : String} :
    grant ∈ (GrantStore.ofConfig config).grants (.user user) ↔ config.Entitles user grant := by
  rw [GrantStore.grants, GrantStore.mem_grantsThrough]
  simp only [mem_direct_iff_declares hroles husers, GrantStore.mem_rolesOf_ofConfig,
    isLast_iff_of_nodup husers, Entitles]
  refine or_congr_right ⟨?_, ?_⟩
  · rintro ⟨role, ⟨u, ⟨hu, hid⟩, hrole⟩, hgrant⟩
    exact ⟨u, hu, hid, role, hrole, hgrant⟩
  · rintro ⟨u, hu, hid, role, hrole, hgrant⟩
    exact ⟨role, ⟨u, ⟨hu, hid⟩, hrole⟩, hgrant⟩

end Warrant.Config
