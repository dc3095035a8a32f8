import Warrant.Proofs.Config.Rejection
import Warrant.Proofs.Registry.Legal

/-!
# Which capabilities can become legal

Every capability is legal for some registry (`exists_render_mem_legal`), for an operation may have
the wildcard as the name of its entity. Among the registries without such an operation, those whose
entities are all named, exactly the derivable capabilities become legal
(`isDerivable_iff_legal_of_named`). A configuration that declares the wildcard as an entity may
therefore make a grant legal that it rejects as unreachable (`rejected_grant_is_legal`).
-/

namespace Warrant

namespace Registry

variable {r : Registry}

/-- No operation has the wildcard for its entity. -/
def NamesEntities (r : Registry) : Prop := ∀ o ∈ r.operations, o.entity ≠ wildcard

instance (r : Registry) : Decidable r.NamesEntities := inferInstanceAs (Decidable (∀ _ ∈ _, _))

/-- The registry of the operation that a capability is about, restricted and with a wide grant. -/
def ofCapability (c : Capability) : Registry := ⟨[⟨c.entity, c.action, true, true⟩]⟩

theorem render_mem_legal_ofCapability (c : Capability) : c.render ∈ (ofCapability c).legal := by
  refine render_mem_legal_iff.2 (.inr ⟨_, List.mem_cons_self, ?_⟩)
  refine ⟨⟨c.entity_segment, c.action_segment⟩, rfl, ?_⟩
  split
  · exact ⟨rfl, .inr ⟨rfl, rfl⟩⟩
  · exact ⟨rfl, .inr rfl⟩

theorem exists_render_mem_legal (c : Capability) : ∃ r : Registry, c.render ∈ r.legal :=
  ⟨_, render_mem_legal_ofCapability c⟩

theorem namesEntities_ofCapability {c : Capability} (h : c.entity ≠ wildcard) :
    (ofCapability c).NamesEntities := by
  intro o ho
  obtain rfl := List.mem_singleton.1 ho
  exact h

end Registry

namespace Capability

variable {c : Capability} {r : Registry}

theorem isDerivable_iff : c.isDerivable = true ↔ c.entity ≠ wildcard ∨ c = .global := by
  unfold isDerivable
  simp only [Bool.or_eq_true, Bool.and_eq_true, decide_eq_true_eq]
  refine ⟨?_, ?_⟩
  · rintro (hentity | ⟨haction, hbroad⟩)
    · exact .inl hentity
    · by_cases hentity : c.entity = wildcard
      · exact .inr (Capability.ext hentity haction hbroad)
      · exact .inl hentity
  · rintro (hentity | rfl)
    · exact .inl hentity
    · exact .inr ⟨rfl, rfl⟩

/-- A legal capability with the wildcard for its entity is the global one, or an operation has that
entity. -/
theorem isDerivable_of_mem_legal (hr : r.NamesEntities) (h : c.render ∈ r.legal) :
    c.isDerivable = true := by
  rw [isDerivable_iff]
  rcases Registry.render_mem_legal_iff.1 h with hglobal | ⟨o, ho, -, hentity, -⟩
  · exact .inr hglobal
  · exact .inl (hentity ▸ hr o ho)

theorem isDerivable_iff_named :
    c.isDerivable = true ↔ ∃ r : Registry, r.NamesEntities ∧ c.render ∈ r.legal := by
  constructor
  · intro h
    rcases isDerivable_iff.1 h with hentity | rfl
    · exact ⟨.ofCapability c, Registry.namesEntities_ofCapability hentity,
        Registry.render_mem_legal_ofCapability c⟩
    · exact ⟨.empty, nofun, Registry.render_mem_legal_iff.2 (.inl rfl)⟩
  · rintro ⟨r, hr, hc⟩
    exact isDerivable_of_mem_legal hr hc

/-- Where every entity is named, the derivable capabilities are those that some registry makes
legal, and a grant that a configuration rejects as unreachable is legal for none. -/
theorem isDerivable_iff_legal_of_named (c : Capability) (text grant : String) (p : Principal) :
    (c.isDerivable = true ↔ ∃ r : Registry, r.NamesEntities ∧ c.render ∈ r.legal) ∧
      (Config.parse text = .error (.unreachableGrant p grant) →
        ∀ r : Registry, r.NamesEntities → grant ∉ r.legal) := by
  refine ⟨isDerivable_iff_named, fun h r hr hgrant => ?_⟩
  obtain ⟨cap, hcap, hnot⟩ := Config.not_derivable_of_parse h
  rw [← render_of_parse hcap] at hgrant
  rw [isDerivable_of_mem_legal hr hgrant] at hnot
  cases hnot

theorem sweep_not_legal_of_named :
    let text := "[[entities]]\nname = \"post\"\nactions = [\x7b name = \"delete\" \x7d]\n\n" ++
      "[[roles]]\nid = \"sweeper\"\ngrants = [\"*:delete\"]\n"
    let config : Config :=
      ⟨[⟨"post", [⟨"delete", true, false⟩]⟩], [⟨"sweeper", ["*:delete"]⟩], []⟩
    let sweep : Capability := ⟨"*", "delete", false, by decide, by decide⟩
    Config.read? text = some config ∧
      Config.parse text = .error (.unreachableGrant (.role "sweeper") "*:delete") ∧
      config.registry.NamesEntities ∧ "*:delete" ∉ config.registry.legal ∧
      ¬ ∃ r : Registry, r.NamesEntities ∧ sweep.render ∈ r.legal := by
  intro text config sweep
  have hread : Config.read? text = some config := by decide +kernel
  have hrejected : Config.parse text = .error (.unreachableGrant (.role "sweeper") "*:delete") := by
    rw [Config.parse, hread]
    rfl
  have hr : config.registry.NamesEntities := by decide
  have hsweep : ¬ sweep.isDerivable = true := by decide
  obtain ⟨hiff, hunreachable⟩ :=
    isDerivable_iff_legal_of_named sweep text "*:delete" (.role "sweeper")
  exact ⟨hread, hrejected, hr, hunreachable hrejected _ hr, fun h => hsweep (hiff.2 h)⟩

/-- A configuration whose operation has the wildcard for its entity rejects a grant that its own
registry makes legal. -/
theorem rejected_grant_is_legal :
    let text := "[[entities]]\nname = \"*\"\nactions = [\x7b name = \"delete\" \x7d]\n\n" ++
      "[[roles]]\nid = \"sweeper\"\ngrants = [\"*:delete\"]\n"
    let config : Config :=
      ⟨[⟨"*", [⟨"delete", true, false⟩]⟩], [⟨"sweeper", ["*:delete"]⟩], []⟩
    let sweep : Capability := ⟨"*", "delete", false, by decide, by decide⟩
    Config.read? text = some config ∧
      Config.parse text = .error (.unreachableGrant (.role "sweeper") sweep.render) ∧
      sweep.isDerivable = false ∧ sweep.render ∈ config.registry.legal := by
  intro text config sweep
  have hread : Config.read? text = some config := by decide +kernel
  refine ⟨hread, ?_, by decide, by decide +kernel⟩
  rw [Config.parse, hread]
  rfl

end Capability

end Warrant
