import Warrant.Proofs.Catalog.Reading
import Warrant.Proofs.Engine.Administration
import Warrant.Proofs.Engine.Request

/-!
# Isolation between principals

What an engine answers to a user depends on the catalog, on the roles of the user, and on the direct
grants of the user and of those roles. So it is the same after any administration that touches none
of these (`access_isolated`), even of a role that is named as the user, or of a user that is named
as one of its roles.
-/

namespace Warrant

namespace GrantStore

variable {user : String} {g g' g'' : GrantStore} {p : Principal} {ch : Change}

instance : Decidable (g.Source user p) :=
  inferInstanceAs
    (Decidable (p = .user user ∨ ∃ role ∈ (g.rolesOf user).toList, p = .role role))

/-- What is changed is a source of the grants of a user, or the list of its roles. -/
def Subject.Concerns (g : GrantStore) (user : String) : Subject → Prop
  | .grantsOf p => g.Source user p
  | .rolesOf u => u = user

instance : ∀ subject : Subject, Decidable (subject.Concerns g user)
  | .grantsOf p => inferInstanceAs (Decidable (g.Source user p))
  | .rolesOf u => inferInstanceAs (Decidable (u = user))

/-- Two stores agree on the roles of a user, and on the direct grants of the user and those
roles. -/
def AgreeFor (user : String) (g g' : GrantStore) : Prop :=
  g'.rolesOf user = g.rolesOf user ∧ ∀ p, g.Source user p → g'.direct p = g.direct p

theorem AgreeFor.refl : AgreeFor user g g := ⟨rfl, fun _ _ => rfl⟩

theorem AgreeFor.trans (h : AgreeFor user g g') (h' : AgreeFor user g' g'') :
    AgreeFor user g g'' :=
  ⟨h'.1.trans h.1, fun p hp => (h'.2 p ((source_congr h.1).2 hp)).trans (h.2 p hp)⟩

theorem agreeFor_after (h : ¬ ch.subject.Concerns g user) : AgreeFor user g (g.after ch) := by
  refine ⟨rolesOf_after_of_ne fun hsubject => h ?_, fun p hp => direct_after_of_ne fun hsubject =>
    h ?_⟩
  · rw [hsubject]
    exact rfl
  · rw [hsubject]
    exact hp

end GrantStore

namespace Engine

open Call GrantStore

variable {κ : Type} {q : Request} {ch : Change} {subject : Subject} {p : Principal}
  {user : String}

/-! ### What an act is about -/

/-- What a request administers, if anything. -/
def Request.subject? : Request → Option Subject
  | assign p _ | revoke p _ | replace p _ => some (.grantsOf p)
  | _ => none

def Act.subject? : Act → Option Subject
  | ask _ q => q.subject?
  | change ch => some ch.subject

/-- The act administers something that does not concern the user. -/
def Act.Spares (a : Act) (g : GrantStore) (user : String) : Prop :=
  ∃ subject, a.subject? = some subject ∧ ¬ subject.Concerns g user

theorem Request.Asks.subject_eq (h : q.Asks ch) : q.subject? = some ch.subject := by
  cases h with
  | assign p c => rfl
  | revoke p grant => rfl
  | replace p cs => rfl

theorem keepsCatalog_onCatalog {α : Type} {c : Call κ (Failure StoreError) α} (h : Keeps id c) :
    Keeps Engine.catalog (onCatalog c) := fun e => h e.catalog

theorem changed_catalog (f : GrantStore → Bool × GrantStore) (event : Event) :
    Keeps Engine.catalog ((do
      let changed ← changeGrants f
      if changed then
        Call.emit [event]
      return changed) : Op κ Bool) := fun e =>
  Ends.state (P := fun e' => e'.catalog = e.catalog) <|
    (changed_ends f event e).mono (fun _ _ he => congrArg Engine.catalog he) fun _ _ => False.elim

variable [CatalogStore κ] {e e' : Engine κ}

/-! ### What an answer depends on -/

/-- Two engines answer every request of a principal for access alike. -/
def SameAccess (p : Principal) (e e' : Engine κ) : Prop :=
  ∀ entity action,
    (resolveAccess p entity action e').answer = (resolveAccess p entity action e).answer ∧
      (authorize p entity action e').answer = (authorize p entity action e).answer

theorem sameAccess_of_grants (hcatalog : e'.catalog = e.catalog)
    (hgrants : e'.grants.grants p = e.grants.grants p) : SameAccess p e e' := by
  intro entity action
  cases hload : (CatalogStore.load e.catalog).answer with
  | error f =>
    have hload' : (CatalogStore.load e'.catalog).answer = .error f := by rw [hcatalog, hload]
    obtain ⟨hresolve, hauthorize⟩ := access_of_load_error p entity action hload
    obtain ⟨hresolve', hauthorize'⟩ := access_of_load_error p entity action hload'
    exact ⟨hresolve'.trans hresolve.symm, hauthorize'.trans hauthorize.symm⟩
  | ok s =>
    have hload' : (CatalogStore.load e'.catalog).answer = .ok s := by rw [hcatalog, hload]
    have hresolve := resolveAccess_of_load p entity action hload
    have hresolve' := resolveAccess_of_load p entity action hload'
    rw [hgrants] at hresolve'
    exact ⟨hresolve'.trans hresolve.symm,
      (authorize_of_resolve hresolve').trans (authorize_of_resolve hresolve).symm⟩

theorem sameAccess_of_agreeFor (hcatalog : e'.catalog = e.catalog)
    (h : AgreeFor user e.grants e'.grants) : SameAccess (.user user) e e' :=
  sameAccess_of_grants hcatalog (grants_congr h.1 h.2)

/-! ### Administration and the catalog -/

section Catalog

variable [CatalogStore.ReadsPurely κ]

theorem assign_catalog (p : Principal) (capability : String) :
    Keeps Engine.catalog (assign p capability : Op κ Bool) := by
  have hparse : Keeps Engine.catalog (parse capability : Op κ Capability) := by
    unfold parse
    split
    · exact keeps_pure _
    · exact keeps_fail _
  refine hparse.bind fun c =>
    (keepsCatalog_onCatalog (CatalogStore.ReadsPurely.contains capability)).bind fun known => ?_
  cases known with
  | false => exact keeps_fail _
  | true => exact changed_catalog _ _

theorem replace_catalog (p : Principal) (texts : List String) :
    Keeps Engine.catalog (replace p texts : Op κ Unit) := by
  refine (keepsCatalog_onCatalog CatalogStore.ReadsPurely.load).bind fun catalog => ?_
  split
  · exact keeps_fail _
  · exact fun _ => rfl

theorem perform_catalog (h : q.subject? = some subject) :
    Keeps Engine.catalog (q.perform : Op κ Reply) := by
  cases q with
  | assign p capability => exact (assign_catalog p capability).bind fun _ => keeps_pure _
  | revoke p grant => exact (changed_catalog _ _).bind fun _ => keeps_pure _
  | replace p texts => exact (replace_catalog p texts).bind fun _ => keeps_pure _
  | _ => cases h

/-! ### Runs that spare a user -/

variable {e : Engine (FaultyCatalog κ)} {a : Act} {acts : List Act}

/-- Each of the acts spares the user when its turn comes. -/
def Spared (user : String) (e : Engine (FaultyCatalog κ)) : List Act → Prop
  | [] => True
  | a :: acts => a.Spares e.grants user ∧ Spared user (e.act a) acts

/-- The catalog is the same, and so is all that the grants of the user come from. -/
def Unaffected (user : String) (e e' : Engine (FaultyCatalog κ)) : Prop :=
  e'.catalog.inner = e.catalog.inner ∧ AgreeFor user e.grants e'.grants

theorem unaffected_act (h : a.Spares e.grants user) : Unaffected user e (e.act a) := by
  obtain ⟨subject, hsubject, hspares⟩ := h
  cases a with
  | change ch =>
    cases hsubject
    exact ⟨rfl, agreeFor_after hspares⟩
  | ask faults q =>
    have hcatalog := congrArg FaultyCatalog.inner (perform_catalog hsubject (e.withFaults faults))
    refine ⟨hcatalog, ?_⟩
    have hgrants : (e.act (.ask faults q)).grants = e.grants ∨ ∃ ch, q.Asks ch ∧
      (e.act (.ask faults q)).grants = e.grants.after ch := grants_of_perform q _
    rcases hgrants with hsame | ⟨ch, hasks, hafter⟩
    · rw [hsame]
      exact .refl
    · rw [hafter]
      cases hsubject.symm.trans hasks.subject_eq
      exact agreeFor_after hspares

theorem unaffected_run (h : Spared user e acts) : Unaffected user e (e.run acts) := by
  induction acts generalizing e with
  | nil => exact ⟨rfl, .refl⟩
  | cons a acts ih =>
    -- The later acts spare what the user has after the first, which is what it had before.
    obtain ⟨hcatalog, hgrants⟩ := unaffected_act h.1
    obtain ⟨hcatalog', hgrants'⟩ := ih h.2
    exact ⟨hcatalog'.trans hcatalog, hgrants.trans hgrants'⟩

/-- A user is answered as before after any administration whose acts each spare it: none is about
the user, a role that it has at that moment, or the list of its roles. Whatever else two engines
hold, they answer a user alike if they have the same catalog and agree on its roles and on the
direct grants of the user and those roles; and a role if they agree on its direct grants. -/
theorem access_isolated (user : String) :
    (∀ (e : Engine (FaultyCatalog κ)) (acts : List Act), Spared user e acts →
      ∀ faults, SameAccess (.user user) (e.withFaults faults) ((e.run acts).withFaults faults)) ∧
    (∀ e e' : Engine κ, e'.catalog = e.catalog → AgreeFor user e.grants e'.grants →
      SameAccess (.user user) e e') ∧
    ∀ (role : String) (e e' : Engine κ), e'.catalog = e.catalog →
      e'.grants.direct (.role role) = e.grants.direct (.role role) →
        SameAccess (.role role) e e' := by
  refine ⟨fun e acts hspared faults => ?_, fun e e' => sameAccess_of_agreeFor,
    fun role e e' hcatalog hdirect => sameAccess_of_grants hcatalog hdirect⟩
  obtain ⟨hcatalog, hgrants⟩ := unaffected_run hspared
  exact sameAccess_of_agreeFor (congrArg (FaultyCatalog.mk faults) hcatalog) hgrants

/-- A role that is named as the user becomes omnipotent, and a user that is named as its role is
given a grant; the user is answered as before. -/
theorem namesakes_are_apart :
    let start : Engine (FaultyCatalog MemoryCatalog) :=
      new (.ofConfig ⟨[], [⟨"editor", ["post:edit"]⟩], [⟨"ann", ["editor"], []⟩]⟩)
        ⟨[], ⟨TextSet.ofList ["*:*:*", "post:delete", "post:edit"]⟩⟩
    let acts : List Act := [.change (.assign (.role "ann") .global),
      .ask [] (.assign (.user "editor") "post:delete"), .change (.addRole "editor" "ann")]
    Spared "ann" start acts ∧
      SameAccess (.user "ann") (start.withFaults []) ((start.run acts).withFaults []) ∧
      (resolveAccess (.user "ann") "post" "delete" start).answer = .ok .none ∧
      (resolveAccess (.role "ann") "post" "delete" (start.run acts)).answer = .ok .all := by
  intro start acts
  have hspared : Spared "ann" start acts := by
    refine ⟨⟨_, rfl, ?_⟩, ⟨_, rfl, ?_⟩, ⟨_, rfl, ?_⟩, trivial⟩
    all_goals decide +kernel
  obtain ⟨hruns, -, -⟩ := access_isolated (κ := MemoryCatalog) "ann"
  exact ⟨hspared, hruns start acts hspared [], by decide +kernel, by decide +kernel⟩

end Catalog

end Engine

end Warrant
