import Warrant.Config

/-!
# Changes of the grant store

The five calls that change a grant store, as data. A change is about the direct grants of one
principal or about the memberships of one user (`Change.subject`) and leaves everything else alone.
What a user holds comes from its sources, which are the user and its roles, so a change of another
principal's grants does not reach it (`grants_after`).
-/

namespace Warrant.GrantStore

/-- One call that changes a grant store. -/
inductive Change where
  | assign (p : Principal) (c : Capability)
  | revoke (p : Principal) (grant : String)
  | replace (p : Principal) (cs : List Capability)
  | addRole (user role : String)
  | removeRole (user role : String)

/-- What a change is about. -/
inductive Subject where
  | grantsOf (p : Principal)
  | rolesOf (user : String)
deriving DecidableEq

def Change.subject : Change → Subject
  | assign p _ | revoke p _ | replace p _ => .grantsOf p
  | addRole user _ | removeRole user _ => .rolesOf user

def after (g : GrantStore) : Change → GrantStore
  | .assign p c => (g.assign p c).2
  | .revoke p grant => (g.revoke p grant).2
  | .replace p cs => g.replace p cs
  | .addRole user role => (g.addRole user role).2
  | .removeRole user role => (g.removeRole user role).2

def Change.Gives (ch : Change) (p : Principal) (grant : String) : Prop :=
  match ch with
  | assign q c => p = q ∧ grant = c.render
  | replace q cs => p = q ∧ ∃ c ∈ cs, grant = c.render
  | revoke .. | addRole .. | removeRole .. => False

variable {g g' : GrantStore} {ch : Change} {p q : Principal} {c : Capability}
  {cs : List Capability} {user u r s grant : String}

theorem eq_of_direct_of_rolesOf (hdirect : ∀ p, g.direct p = g'.direct p)
    (hroles : ∀ user, g.rolesOf user = g'.rolesOf user) : g = g' := by
  cases g
  cases g'
  rw [GrantStore.mk.injEq]
  exact ⟨funext hdirect, funext hroles⟩

/-! ### What is held and who belongs after a change -/

theorem mem_update_insert {α : Type} [DecidableEq α] {f : α → TextSet} {a b : α} {x : String} :
    s ∈ update f a ((f a).insert x) b ↔ (b = a ∧ s = x) ∨ s ∈ f b := by
  by_cases hb : b = a
  · subst hb
    simp
  · simp [hb]

theorem mem_update_erase {α : Type} [DecidableEq α] {f : α → TextSet} {a b : α} {x : String} :
    s ∈ update f a ((f a).erase x) b ↔ s ∈ f b ∧ ¬ (b = a ∧ s = x) := by
  by_cases hb : b = a
  · subst hb
    simp
  · simp [hb]

theorem mem_direct_assign :
    s ∈ (g.after (.assign q c)).direct p ↔ (p = q ∧ s = c.render) ∨ s ∈ g.direct p :=
  mem_update_insert

theorem mem_direct_revoke :
    s ∈ (g.after (.revoke q grant)).direct p ↔ s ∈ g.direct p ∧ ¬ (p = q ∧ s = grant) :=
  mem_update_erase

theorem mem_direct_replace :
    s ∈ (g.after (.replace q cs)).direct p ↔
      (p = q ∧ ∃ c ∈ cs, s = c.render) ∨ p ≠ q ∧ s ∈ g.direct p := by
  show s ∈ update g.direct q (TextSet.ofList (cs.map Capability.render)) p ↔ _
  by_cases hp : p = q
  · subst hp
    simp [eq_comm]
  · simp [hp]

theorem mem_rolesOf_addRole :
    s ∈ (g.after (.addRole u r)).rolesOf user ↔ (user = u ∧ s = r) ∨ s ∈ g.rolesOf user :=
  mem_update_insert

theorem mem_rolesOf_removeRole :
    s ∈ (g.after (.removeRole u r)).rolesOf user ↔ s ∈ g.rolesOf user ∧ ¬ (user = u ∧ s = r) :=
  mem_update_erase

/-! ### What a change leaves alone -/

theorem direct_after_of_ne (h : ch.subject ≠ .grantsOf p) : (g.after ch).direct p = g.direct p := by
  have hne : ∀ q, ch.subject = .grantsOf q → p ≠ q := fun q hq hpq => h (hpq ▸ hq)
  cases ch with
  | assign q c => exact update_of_ne _ _ (hne q rfl)
  | revoke q grant => exact update_of_ne _ _ (hne q rfl)
  | replace q cs => exact update_of_ne _ _ (hne q rfl)
  | addRole user role => rfl
  | removeRole user role => rfl

theorem rolesOf_after_of_ne (h : ch.subject ≠ .rolesOf user) :
    (g.after ch).rolesOf user = g.rolesOf user := by
  have hne : ∀ u, ch.subject = .rolesOf u → user ≠ u := fun u hu huser => h (huser ▸ hu)
  cases ch with
  | assign p c => rfl
  | revoke p grant => rfl
  | replace p cs => rfl
  | addRole u role => exact update_of_ne _ _ (hne u rfl)
  | removeRole u role => exact update_of_ne _ _ (hne u rfl)

theorem direct_foldl_of_ne {changes : List Change} (h : ∀ ch ∈ changes, ch.subject ≠ .grantsOf p) :
    (changes.foldl after g).direct p = g.direct p := by
  induction changes generalizing g with
  | nil => rfl
  | cons ch rest ih =>
    obtain ⟨hch, hrest⟩ := List.forall_mem_cons.1 h
    exact (ih hrest).trans (direct_after_of_ne hch)

theorem rolesOf_foldl_of_ne {changes : List Change}
    (h : ∀ ch ∈ changes, ch.subject ≠ .rolesOf user) :
    (changes.foldl after g).rolesOf user = g.rolesOf user := by
  induction changes generalizing g with
  | nil => rfl
  | cons ch rest ih =>
    obtain ⟨hch, hrest⟩ := List.forall_mem_cons.1 h
    exact (ih hrest).trans (rolesOf_after_of_ne hch)

theorem mem_direct_of_after (h : s ∈ (g.after ch).direct p) : s ∈ g.direct p ∨ ch.Gives p s := by
  cases ch with
  | assign q c => exact (mem_direct_assign.1 h).symm
  | revoke q grant => exact .inl (mem_direct_revoke.1 h).1
  | replace q cs => exact (mem_direct_replace.1 h).symm.imp_left And.right
  | addRole user role => exact .inl h
  | removeRole user role => exact .inl h

theorem Change.Gives.exists_capability (h : ch.Gives p s) : ∃ c : Capability, s = c.render := by
  cases ch with
  | assign q c => exact ⟨c, h.2⟩
  | replace q cs =>
    obtain ⟨-, c, -, hc⟩ := h
    exact ⟨c, hc⟩
  | _ => exact h.elim

/-! ### Where the grants of a user come from -/

/-- The principals whose direct grants a user has: itself and its roles. -/
def Source (g : GrantStore) (user : String) (p : Principal) : Prop :=
  p = .user user ∨ ∃ role ∈ g.rolesOf user, p = .role role

theorem mem_grants_user : s ∈ g.grants (.user user) ↔ ∃ p, g.Source user p ∧ s ∈ g.direct p := by
  rw [grants, mem_grantsThrough]
  constructor
  · rintro (hs | ⟨role, hrole, hs⟩)
    · exact ⟨_, .inl rfl, hs⟩
    · exact ⟨_, .inr ⟨role, hrole, rfl⟩, hs⟩
  · rintro ⟨_, rfl | ⟨role, hrole, rfl⟩, hs⟩
    · exact .inl hs
    · exact .inr ⟨role, hrole, hs⟩

theorem source_congr (hroles : g'.rolesOf user = g.rolesOf user) :
    g'.Source user p ↔ g.Source user p := by
  unfold Source
  rw [hroles]

/-- The grants of a user are those of its sources, and depend on nothing else. -/
theorem grants_congr (hroles : g'.rolesOf user = g.rolesOf user)
    (hdirect : ∀ p, g.Source user p → g'.direct p = g.direct p) :
    g'.grants (.user user) = g.grants (.user user) := by
  ext s
  rw [mem_grants_user, mem_grants_user]
  refine exists_congr fun p => ?_
  rw [source_congr hroles]
  exact and_congr_right fun hp => by rw [hdirect p hp]

/-- A change of the grants of `p` reaches the users that have `p` for a source, who hold what `p`
then holds besides what their other sources do, and no other user. -/
theorem grants_after (hsubject : ch.subject = .grantsOf p) (user : String) :
    (¬ g.Source user p → (g.after ch).grants (.user user) = g.grants (.user user)) ∧
      (g.Source user p → ∀ s, s ∈ (g.after ch).grants (.user user) ↔
        s ∈ (g.after ch).direct p ∨ ∃ q, q ≠ p ∧ g.Source user q ∧ s ∈ g.direct q) := by
  have hroles : (g.after ch).rolesOf user = g.rolesOf user :=
    rolesOf_after_of_ne (by rw [hsubject]; nofun)
  have hother : ∀ q, q ≠ p → (g.after ch).direct q = g.direct q := fun q hq =>
    direct_after_of_ne (by rw [hsubject]; exact fun heq => hq (Subject.grantsOf.inj heq).symm)
  refine ⟨fun hp => ?_, fun hp s => ?_⟩
  · refine grants_congr hroles fun q hq => hother q ?_
    rintro rfl
    exact hp hq
  · rw [mem_grants_user]
    constructor
    · rintro ⟨q, hq, hs⟩
      by_cases hqp : q = p
      · exact .inl (hqp ▸ hs)
      · exact .inr ⟨q, hqp, (source_congr hroles).1 hq, hother q hqp ▸ hs⟩
    · rintro (hs | ⟨q, hqp, hq, hs⟩)
      · exact ⟨p, (source_congr hroles).2 hp, hs⟩
      · exact ⟨q, (source_congr hroles).2 hq, (hother q hqp).symm ▸ hs⟩

end Warrant.GrantStore
