import Warrant.Registry
import Warrant.Proofs.Capability.Grammar

/-!
# What a registry makes legal

The legal set is a set of written capabilities (`exists_render_of_mem_legal`), and
`render_mem_legal_iff` says which: the global one, and what a nameable operation yields. An
operation yields a wide capability only if it is multilevel, and a narrow one only if it is gated.
-/

namespace Warrant

namespace Operation

/-- Both names can stand in a capability. -/
def IsNameable (o : Operation) : Prop := IsSegment o.entity ∧ IsSegment o.action

instance (o : Operation) : Decidable o.IsNameable := inferInstanceAs (Decidable (_ ∧ _))

def Yields (o : Operation) (c : Capability) : Prop :=
  o.IsNameable ∧ o.entity = c.entity ∧
    if c.broad then
      o.multilevel = true ∧ (c.action = wildcard ∨ o.gated = true ∧ o.action = c.action)
    else o.gated = true ∧ (c.action = wildcard ∨ o.action = c.action)

end Operation

namespace Capability

theorem isSegment_wildcard : IsSegment wildcard := by decide

theorem narrow_eq_ok {entity action : String} (he : IsSegment entity) (ha : IsSegment action) :
    narrow entity action = .ok ⟨entity, action, false, he, ha⟩ :=
  make_of_segments he ha

theorem isSegment_of_narrow {entity action : String} {c : Capability}
    (h : narrow entity action = .ok c) : IsSegment entity ∧ IsSegment action := by
  obtain ⟨rfl, rfl, -⟩ := make_eq_ok_iff.1 h
  exact ⟨c.entity_segment, c.action_segment⟩

/-! ### The written forms -/

theorem render_narrow {entity action : String} (he : IsSegment entity) (ha : IsSegment action) :
    render ⟨entity, action, false, he, ha⟩ = entity ++ ":" ++ action := by
  simp [render]

theorem render_wide {entity action : String} (he : IsSegment entity) (ha : IsSegment action) :
    render ⟨entity, action, true, he, ha⟩ = entity ++ ":" ++ action ++ ":*" := by
  simp [render]

theorem render_entity {entity : String} (he : IsSegment entity) :
    render ⟨entity, wildcard, false, he, isSegment_wildcard⟩ = entity ++ ":*" := by
  rw [render_narrow, String.append_assoc]; rfl

theorem render_entity_wide {entity : String} (he : IsSegment entity) :
    render ⟨entity, wildcard, true, he, isSegment_wildcard⟩ = entity ++ ":*:*" := by
  rw [render_wide, String.append_assoc, String.append_assoc]; rfl

theorem render_global : global.render = "*:*:*" := by decide

end Capability

namespace Operation

open Capability

theorem mem_capabilities_of_nameable {o : Operation} (h : o.IsNameable) {s : String} :
    s ∈ o.capabilities ↔
      (o.multilevel = true ∧ s = render ⟨o.entity, wildcard, true, h.1, isSegment_wildcard⟩) ∨
      (o.gated = true ∧ (s = render ⟨o.entity, o.action, false, h.1, h.2⟩ ∨
        s = render ⟨o.entity, wildcard, false, h.1, isSegment_wildcard⟩)) ∨
      (o.gated = true ∧ o.multilevel = true ∧
        s = render ⟨o.entity, o.action, true, h.1, h.2⟩) := by
  unfold capabilities
  rw [narrow_eq_ok h.1 h.2]
  dsimp only
  rw [render_entity h.1, render_entity_wide h.1, render_narrow h.1 h.2, render_wide h.1 h.2]
  cases o.gated <;> cases o.multilevel <;> simp [or_assoc]

theorem capabilities_eq_nil {o : Operation} (h : ¬ o.IsNameable) : o.capabilities = [] := by
  unfold capabilities
  split
  · rfl
  · rename_i c hc
    exact absurd (isSegment_of_narrow hc) h

theorem mem_capabilities_iff {o : Operation} {s : String} :
    s ∈ o.capabilities ↔ ∃ c : Capability, s = c.render ∧ o.Yields c := by
  by_cases h : o.IsNameable
  · rw [mem_capabilities_of_nameable h]
    constructor
    · rintro (⟨hm, hs⟩ | ⟨hg, hs | hs⟩ | ⟨hg, hm, hs⟩)
      · exact ⟨_, hs, h, rfl, hm, .inl rfl⟩
      · exact ⟨_, hs, h, rfl, hg, .inr rfl⟩
      · exact ⟨_, hs, h, rfl, hg, .inl rfl⟩
      · exact ⟨_, hs, h, rfl, hm, .inr ⟨hg, rfl⟩⟩
    · rintro ⟨⟨entity, action, broad, hc, ha⟩, hs, -, rfl, hy⟩
      cases broad with
      | true =>
        obtain ⟨hm, rfl | ⟨hg, rfl⟩⟩ := hy
        · exact .inl ⟨hm, hs⟩
        · exact .inr (.inr ⟨hg, hm, hs⟩)
      | false =>
        obtain ⟨hg, rfl | rfl⟩ := hy
        · exact .inr (.inl ⟨hg, .inr hs⟩)
        · exact .inr (.inl ⟨hg, .inl hs⟩)
  · rw [capabilities_eq_nil h]
    exact ⟨fun hs => absurd hs List.not_mem_nil, fun ⟨_, _, hy⟩ => absurd hy.1 h⟩

end Operation

namespace Registry

variable {r : Registry}

theorem exists_render_of_mem_legal {s : String} (h : s ∈ r.legal) :
    ∃ c : Capability, s = c.render := by
  rcases mem_legal.1 h with rfl | ⟨o, _, ho⟩
  · exact ⟨_, rfl⟩
  · obtain ⟨c, hs, _⟩ := Operation.mem_capabilities_iff.1 ho
    exact ⟨c, hs⟩

theorem render_mem_legal_iff {c : Capability} :
    c.render ∈ r.legal ↔ c = .global ∨ ∃ o ∈ r.operations, o.Yields c := by
  rw [mem_legal, Capability.render_inj]
  refine or_congr_right ⟨?_, ?_⟩
  · rintro ⟨o, ho, hc⟩
    obtain ⟨d, hd, hy⟩ := Operation.mem_capabilities_iff.1 hc
    cases Capability.render_inj.1 hd
    exact ⟨o, ho, hy⟩
  · rintro ⟨o, ho, hy⟩
    exact ⟨o, ho, Operation.mem_capabilities_iff.2 ⟨c, rfl, hy⟩⟩

end Registry

end Warrant
