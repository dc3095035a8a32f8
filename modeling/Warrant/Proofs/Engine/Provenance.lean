import Mathlib.Data.List.Induction
import Warrant.Proofs.Config.Acceptance
import Warrant.Proofs.Engine.Administration

/-!
# Where grants come from

An engine begins with the grants of an accepted configuration, and beside it only memberships are
changed. Then whatever a principal holds is the text of a capability, and either it was declared and
has been held ever since, or it has been held since a request that stored it, at which the catalog
listed it (`held_provenance`). What the catalog lists by now does not matter.
-/

namespace Warrant.Engine

open GrantStore (Change)

variable {κ : Type} {q : Request} {ch : Change} {p : Principal} {grant : String}
  {faults : List Fault}

def Request.Stores (q : Request) (p : Principal) (grant : String) : Prop :=
  match q with
  | assign p' capability => p = p' ∧ grant = capability
  | replace p' capabilities => p = p' ∧ grant ∈ capabilities
  | _ => False

theorem Request.Asks.stores (h : q.Asks ch) (hgives : ch.Gives p grant) : q.Stores p grant := by
  cases h with
  | assign p' c => exact hgives
  | revoke p' grant => exact hgives.elim
  | replace p' cs =>
    obtain ⟨hp, c, hc, rfl⟩ := hgives
    exact ⟨hp, List.mem_map_of_mem hc⟩

def OnlyMemberships (acts : List Act) : Prop :=
  ∀ ch, Act.change ch ∈ acts → ∃ user, ch.subject = .rolesOf user

variable [CatalogStore κ] {e : Engine (FaultyCatalog κ)} {acts : List Act} {a : Act}

/-- A request is answered and stores a grant, which is the text of a capability that the catalog
lists. -/
structure StoredBy (e : Engine (FaultyCatalog κ)) (faults : List Fault) (q : Request)
    (p : Principal) (grant : String) : Prop where
  stores : q.Stores p grant
  answered : ∃ reply, (q.perform (e.withFaults faults)).answer = .ok reply
  capability : ∃ c, Capability.parse grant = .ok c ∧ c.render = grant
  listed : CatalogStore.Lists (e.withFaults faults).catalog grant

theorem StoredBy.mem {s : TextSet} (law : CatalogLaw κ) (h : e.StoredBy faults q p grant)
    (hs : law.Holds e.catalog.inner s) : grant ∈ s := by
  have hholds : (FaultyCatalog.law faults law).Holds (e.withFaults faults).catalog s := ⟨rfl, hs⟩
  exact (FaultyCatalog.law faults law).mem_of_lists hholds h.listed

/-- A grant that is there after an act was there before, or the act is a request that stored it. -/
theorem mem_direct_of_act (hacts : OnlyMemberships [a]) (h : grant ∈ (e.act a).grants.direct p) :
    grant ∈ e.grants.direct p ∨ ∃ faults q, a = .ask faults q ∧ e.StoredBy faults q p grant := by
  cases a with
  | change ch =>
    obtain ⟨user, hsubject⟩ := hacts ch List.mem_cons_self
    have hsame : (e.grants.after ch).direct p = e.grants.direct p :=
      GrantStore.direct_after_of_ne (by rw [hsubject]; nofun)
    exact .inl (hsame ▸ h)
  | ask faults q =>
    have hends := perform_grants q (e.withFaults faults)
    cases hanswer : (q.perform (e.withFaults faults)).answer with
    | error f =>
      have hsame : (e.act (.ask faults q)).grants = e.grants := hends.of_error hanswer
      exact .inl (hsame ▸ h)
    | ok reply =>
      obtain hsame | ⟨ch, hasks, hafter, hlists⟩ := hends.of_ok hanswer
      · have hsame : (e.act (.ask faults q)).grants = e.grants := hsame
        exact .inl (hsame ▸ h)
      have hafter : (e.act (.ask faults q)).grants = e.grants.after ch := hafter
      rw [hafter] at h
      refine (GrantStore.mem_direct_of_after h).imp_right fun hgives => ⟨faults, q, rfl, ?_⟩
      obtain ⟨c, hc⟩ := hgives.exists_capability
      exact ⟨hasks.stores hgives, ⟨reply, hanswer⟩, ⟨c, Capability.parse_eq_ok_iff.2 hc, hc.symm⟩,
        hlists p grant hgives⟩

/-! ### Whole runs -/

/-- The principal has the grant before the acts and after each of them. -/
def HeldThrough (e : Engine (FaultyCatalog κ)) (acts : List Act) (p : Principal)
    (grant : String) : Prop :=
  ∀ done, done <+: acts → grant ∈ (e.run done).grants.direct p

theorem heldThrough_nil : e.HeldThrough [] p grant ↔ grant ∈ e.grants.direct p := by
  simp [HeldThrough, run]

theorem heldThrough_concat :
    e.HeldThrough (acts ++ [a]) p grant ↔
      e.HeldThrough acts p grant ∧ grant ∈ (e.run (acts ++ [a])).grants.direct p := by
  simp only [HeldThrough, List.prefix_concat_iff, or_imp, forall_and, forall_eq, and_comm]

/-- A request among the acts stored the grant, which has been held since. -/
def StoredDuring (e : Engine (FaultyCatalog κ)) (acts : List Act) (p : Principal)
    (grant : String) : Prop :=
  ∃ before faults q later, acts = before ++ .ask faults q :: later ∧
    (e.run before).StoredBy faults q p grant ∧
    (e.run (before ++ [.ask faults q])).HeldThrough later p grant

theorem heldThrough_or_storedDuring (hacts : OnlyMemberships acts)
    (h : grant ∈ (e.run acts).grants.direct p) :
    e.HeldThrough acts p grant ∨ e.StoredDuring acts p grant := by
  induction acts using List.reverseRecOn with
  | nil => exact .inl (heldThrough_nil.2 h)
  | append_singleton acts a ih =>
    have hheld := h
    rw [run_concat] at h
    have hlast : OnlyMemberships [a] := fun ch hch => hacts ch (List.mem_append_right _ hch)
    have hearlier : OnlyMemberships acts := fun ch hch => hacts ch (List.mem_append_left _ hch)
    rcases mem_direct_of_act hlast h with hbefore | ⟨faults, q, rfl, hstored⟩
    · rcases ih hearlier hbefore with hthrough | hduring
      · exact .inl (heldThrough_concat.2 ⟨hthrough, hheld⟩)
      · -- The request that stored the grant is the same; it has been held one act longer.
        obtain ⟨before, faults, q, later, rfl, hstored, hthrough⟩ := hduring
        refine .inr ⟨before, faults, q, later ++ [a], by simp, hstored, ?_⟩
        refine heldThrough_concat.2 ⟨hthrough, ?_⟩
        rw [← run_append]
        simpa using hheld
    · exact .inr ⟨acts, faults, q, [], rfl, hstored, heldThrough_nil.2 hheld⟩

/-- Whatever a principal holds after a run is the text of a capability. It was declared in the
configuration and has been held since, or it has been held since a request that stored it, when it
was in the set that the catalog held. -/
theorem held_provenance {config : Config}
    (hconfig : config = .empty ∨ ∃ text, Config.parse text = .ok config)
    (law : CatalogLaw κ) (catalog : FaultyCatalog κ) (hacts : OnlyMemberships acts)
    (p : Principal) (grant : String) :
    let start := Engine.new (.ofConfig config) catalog
    grant ∈ (start.run acts).grants.direct p →
      (∃ c, Capability.parse grant = .ok c ∧ c.render = grant) ∧
      (config.Declares p grant ∧ start.HeldThrough acts p grant ∨
        ∃ before faults q later, acts = before ++ .ask faults q :: later ∧
          (start.run before).StoredBy faults q p grant ∧
          (∀ s, law.Holds (start.run before).catalog.inner s → grant ∈ s) ∧
          (start.run (before ++ [.ask faults q])).HeldThrough later p grant) := by
  intro start hheld
  have hvalid : config.validate = .ok () := by
    rcases hconfig with rfl | ⟨text, htext⟩
    · rfl
    · exact Config.validate_of_parse htext
  rcases heldThrough_or_storedDuring hacts hheld with hthrough | hduring
  · have hdeclared : config.Declares p grant :=
      Config.declares_of_mem_direct (hthrough [] List.nil_prefix)
    obtain ⟨c, hc, -⟩ := Config.exists_capability_of_declares hvalid hdeclared
    exact ⟨⟨c, hc, (Capability.parse_eq_ok_iff.1 hc).symm⟩, .inl ⟨hdeclared, hthrough⟩⟩
  · obtain ⟨before, faults, q, later, hsplit, hstored, hthrough⟩ := hduring
    exact ⟨hstored.capability,
      .inr ⟨before, faults, q, later, hsplit, hstored, fun s => hstored.mem law, hthrough⟩⟩

/-- A grant is assigned, and then kept where the others are replaced, while the catalog lists it
beside what is no capability. It outlasts the synchronisation that takes it out of the catalog. -/
theorem assigned_grant_outlasts_catalog :
    let config : Config := ⟨[], [], [⟨"ann", [], ["post:read"]⟩]⟩
    let start := Engine.new (.ofConfig config)
      ⟨[], MemoryCatalog.mk (TextSet.ofList ["::", "post:edit"])⟩
    let acts : List Act := [.ask [] (.assign (.user "ann") "post:edit"),
      .change (.addRole "ann" "editor"), .ask [] (.replace (.user "ann") ["post:edit"]),
      .ask [] (.synchronize .empty)]
    (start.run acts).grants.direct (.user "ann") = TextSet.ofList ["post:edit"] ∧
      (start.run acts).catalog.inner.entries = TextSet.ofList ["*:*:*"] ∧
      ¬ config.Declares (.user "ann") "post:edit" ∧
      ∃ before faults q later, acts = before ++ .ask faults q :: later ∧
        q.Stores (.user "ann") "post:edit" ∧
        "post:edit" ∈ (start.run before).catalog.inner.entries := by
  intro config start acts
  have hparse : Config.parse
      "[[users]]\nid = \"ann\"\ngrants = [\"post:read\"]\n" = .ok config := by
    decide +kernel
  have hgrants : (start.run acts).grants.direct (.user "ann") = TextSet.ofList ["post:edit"] := by
    decide +kernel
  have hundeclared : ¬ config.Declares (.user "ann") "post:edit" := by
    unfold Config.Declares
    decide
  have hacts : OnlyMemberships acts := by
    intro ch hch
    simp [acts] at hch
    exact ⟨"ann", by rw [hch]; rfl⟩
  obtain ⟨-, ⟨hdeclared, -⟩ | ⟨before, faults, q, later, hsplit, hstored, hlisted, -⟩⟩ :=
    held_provenance (.inr ⟨_, hparse⟩) MemoryCatalog.law ⟨[], _⟩ hacts (.user "ann") "post:edit"
      (show "post:edit" ∈ (start.run acts).grants.direct (.user "ann") by rw [hgrants]; decide)
  · exact absurd hdeclared hundeclared
  · exact ⟨hgrants, by decide +kernel, hundeclared, before, faults, q, later, hsplit,
      hstored.stores, hlisted _ rfl⟩

end Warrant.Engine
