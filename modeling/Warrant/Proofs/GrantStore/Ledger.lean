import Mathlib.Order.BooleanAlgebra.Set
import Warrant.Proofs.Config.Declaration
import Warrant.Proofs.GrantStore.Change
import Warrant.Proofs.GrantStore.Table

/-!
# The grant store as two sets of pairs

A ledger says who holds which grant and who belongs to which role, as two sets of pairs that every
change adds to or takes from. A store has a ledger (`GrantStore.ledger`), a change of the store
changes its ledger in the same way, and so the store that any configuration and any changes lead to
answers what the ledger says that they lead to, also where it is kept in two maps that miss keys
(`answers_as_ledger`).
-/

namespace Warrant

/-- Who holds which grant, and which user belongs to which role. -/
@[ext] structure Ledger where
  held : Set (Principal × String)
  members : Set (String × String)

namespace Ledger

def ofConfig (config : Config) : Ledger where
  held := {x | (∃ d, IsLast (.role ·.id) x.1 config.roles d ∧ x.2 ∈ d.grants) ∨
    ∃ d, IsLast (.user ·.id) x.1 config.users d ∧ x.2 ∈ d.grants}
  members := {x | ∃ d, IsLast UserDecl.id x.1 config.users d ∧ x.2 ∈ d.roles}

def after (l : Ledger) : GrantStore.Change → Ledger
  | .assign p c => { l with held := insert (p, c.render) l.held }
  | .revoke p grant => { l with held := l.held \ {(p, grant)} }
  | .replace p cs =>
    { l with held := {x ∈ l.held | x.1 ≠ p} ∪ {x | x.1 = p ∧ ∃ c ∈ cs, x.2 = c.render} }
  | .addRole user role => { l with members := insert (user, role) l.members }
  | .removeRole user role => { l with members := l.members \ {(user, role)} }

end Ledger

namespace GrantStore

def ledger (g : GrantStore) : Ledger :=
  ⟨{x | x.2 ∈ g.direct x.1}, {x | x.2 ∈ g.rolesOf x.1}⟩

variable {g : GrantStore} {p : Principal} {c : Capability} {user role s grant : String}

@[simp] theorem mem_held_ledger : (p, s) ∈ g.ledger.held ↔ s ∈ g.direct p := Iff.rfl

@[simp] theorem mem_members_ledger : (user, role) ∈ g.ledger.members ↔ role ∈ g.rolesOf user :=
  Iff.rfl

theorem ledger_ofConfig (config : Config) : (ofConfig config).ledger = .ofConfig config := by
  ext ⟨a, s⟩
  · exact mem_direct_ofConfig
  · exact mem_rolesOf_ofConfig

theorem ledger_after (g : GrantStore) (ch : Change) : (g.after ch).ledger = g.ledger.after ch := by
  cases ch with
  | assign q c =>
    ext ⟨a, s⟩
    · rw [mem_held_ledger, mem_direct_assign, Ledger.after, Set.mem_insert_iff, Prod.mk.injEq]
      rfl
    · rfl
  | revoke q grant =>
    ext ⟨a, s⟩
    · rw [mem_held_ledger, mem_direct_revoke, Ledger.after, Set.mem_sdiff, Set.mem_singleton_iff,
        Prod.mk.injEq]
      rfl
    · rfl
  | replace q cs =>
    ext ⟨a, s⟩
    · rw [mem_held_ledger, mem_direct_replace, or_comm, and_comm (a := a ≠ q)]
      rfl
    · rfl
  | addRole u r =>
    ext ⟨a, s⟩
    · rfl
    · rw [mem_members_ledger, mem_rolesOf_addRole, Ledger.after, Set.mem_insert_iff, Prod.mk.injEq]
      rfl
  | removeRole u r =>
    ext ⟨a, s⟩
    · rfl
    · rw [mem_members_ledger, mem_rolesOf_removeRole, Ledger.after, Set.mem_sdiff,
        Set.mem_singleton_iff, Prod.mk.injEq]
      rfl

theorem ledger_run (g : GrantStore) (changes : List Change) :
    (changes.foldl after g).ledger = changes.foldl Ledger.after g.ledger := by
  induction changes generalizing g with
  | nil => rfl
  | cons ch rest ih =>
    rw [List.foldl_cons, List.foldl_cons, ih, ledger_after]

/-! ### What the calls answer -/

theorem assign_answer : (g.assign p c).1 = true ↔ g.ledger.after (.assign p c) ≠ g.ledger := by
  simp [assign, Ledger.after, Ledger.ext_iff]

theorem revoke_answer :
    (g.revoke p grant).1 = true ↔ g.ledger.after (.revoke p grant) ≠ g.ledger := by
  simp [revoke, Ledger.after, Ledger.ext_iff, sdiff_eq_left]

theorem addRole_answer :
    (g.addRole user role).1 = true ↔ g.ledger.after (.addRole user role) ≠ g.ledger := by
  simp [addRole, Ledger.after, Ledger.ext_iff]

theorem removeRole_answer :
    (g.removeRole user role).1 = true ↔ g.ledger.after (.removeRole user role) ≠ g.ledger := by
  simp [removeRole, Ledger.after, Ledger.ext_iff, sdiff_eq_left]

/-- Every call on the store answers what the ledger says. -/
structure AnswersAs (g : GrantStore) (l : Ledger) : Prop where
  assign : ∀ p c, (g.assign p c).1 = true ↔ l.after (.assign p c) ≠ l
  revoke : ∀ p grant, (g.revoke p grant).1 = true ↔ l.after (.revoke p grant) ≠ l
  addRole : ∀ user role, (g.addRole user role).1 = true ↔ l.after (.addRole user role) ≠ l
  removeRole : ∀ user role, (g.removeRole user role).1 = true ↔ l.after (.removeRole user role) ≠ l
  direct : ∀ p s, s ∈ g.direct p ↔ (p, s) ∈ l.held
  rolesOf : ∀ user role, role ∈ g.rolesOf user ↔ (user, role) ∈ l.members
  grants_role : ∀ role, g.grants (.role role) = g.direct (.role role)
  grants_user : ∀ user s, s ∈ g.grants (.user user) ↔
    (.user user, s) ∈ l.held ∨ ∃ role, (user, role) ∈ l.members ∧ (.role role, s) ∈ l.held

theorem answersAs_ledger (g : GrantStore) : g.AnswersAs g.ledger where
  assign _ _ := assign_answer
  revoke _ _ := revoke_answer
  addRole _ _ := addRole_answer
  removeRole _ _ := removeRole_answer
  direct _ _ := Iff.rfl
  rolesOf _ _ := Iff.rfl
  grants_role _ := rfl
  grants_user _ _ := mem_grantsThrough

/-- The store that any configuration and any changes lead to answers as the ledger that they lead
to, and so do the two maps of the store, whatever keys they miss. A change of the grants of a
principal reaches the user itself or the present members of the role, and nobody else; and a grant
that is revoked from one source stays with a user just as long as another source of the user holds
it. -/
theorem answers_as_ledger (config : Config) (changes : List Change) :
    let g := changes.foldl after (ofConfig config)
    let l := changes.foldl Ledger.after (Ledger.ofConfig config)
    let t := changes.foldl GrantTable.after (GrantTable.ofConfig config)
    g.AnswersAs l ∧
    (∀ uses, t.answers uses = g.answers uses) ∧
    (∀ (ch : Change) (p : Principal), ch.subject = .grantsOf p → ∀ user,
      (¬ g.Source user p → (g.after ch).grants (.user user) = g.grants (.user user)) ∧
      (g.Source user p → ∀ s, s ∈ (g.after ch).grants (.user user) ↔
        s ∈ (g.after ch).direct p ∨ ∃ q, q ≠ p ∧ g.Source user q ∧ (q, s) ∈ l.held)) ∧
    ∀ user p grant, g.Source user p →
      (grant ∈ (g.revoke p grant).2.grants (.user user) ↔
        ∃ q, q ≠ p ∧ g.Source user q ∧ (q, grant) ∈ l.held) := by
  intro g l t
  have hledger : l = g.ledger := by
    show changes.foldl Ledger.after (Ledger.ofConfig config) = _
    rw [← ledger_ofConfig, ← ledger_run]
  have hshown : t.shown = g := by
    rw [GrantTable.foldl_after_shown, GrantTable.ofConfig_shown]
  rw [hledger]
  refine ⟨answersAs_ledger g, fun uses => ?_, fun ch p => grants_after, fun user p grant hp => ?_⟩
  · rw [t.answers_shown, hshown]
  have hsubject : (Change.revoke p grant).subject = .grantsOf p := rfl
  have hreach := (grants_after (g := g) hsubject user).2 hp grant
  have hgone : ¬ grant ∈ (g.after (.revoke p grant)).direct p := fun h =>
    (mem_direct_revoke.1 h).2 ⟨rfl, rfl⟩
  rw [or_iff_right hgone] at hreach
  exact hreach

/-- A role and a user of one name, the role declared twice, and a role that is not declared: what
the undeclared role is given reaches the user, and what is revoked from the user stays through the
role, whose last declaration lists it. -/
theorem revoked_grant_stays_through_role :
    let config : Config := ⟨[], [⟨"a", ["post:old"]⟩, ⟨"a", ["post:edit"]⟩],
      [⟨"a", ["b"], []⟩, ⟨"a", ["a", "ghost"], ["post:edit"]⟩]⟩
    let delete : Capability := ⟨"post", "delete", true, by decide, by decide⟩
    let given : Change := .assign (.role "ghost") delete
    let g := [Change.removeRole "a" "b"].foldl after (ofConfig config)
    g.Source "a" (.role "ghost") ∧ "post:delete:*" ∈ (g.after given).grants (.user "a") ∧
      g.Source "a" (.user "a") ∧
      "post:edit" ∈ (g.revoke (.user "a") "post:edit").2.grants (.user "a") := by
  intro config delete given g
  have hghost : g.Source "a" (.role "ghost") := .inr ⟨"ghost", by decide, rfl⟩
  have hrole : g.Source "a" (.role "a") := .inr ⟨"a", by decide, rfl⟩
  obtain ⟨hanswers, -, hreach, hstays⟩ := answers_as_ledger config [.removeRole "a" "b"]
  have hlast : "post:edit" ∈ g.direct (.role "a") := by decide
  refine ⟨hghost, ?_, .inl rfl, ?_⟩
  · exact ((hreach given _ rfl "a").2 hghost _).2 (.inl (by decide))
  · exact (hstays "a" _ _ (.inl rfl)).2 ⟨.role "a", nofun, hrole, (hanswers.direct _ _).1 hlast⟩

end GrantStore

end Warrant
