import Mathlib.Data.Set.Insert
import Warrant.Proofs.Capability.Classification
import Warrant.Proofs.Registry.Legal

/-!
# The legal set entity by entity

The legal set is put together operation by operation. Put together entity by entity (`grouped`), it
lists a gated operation under its own name, the blanket grant of an entity once where it has a gated
operation, and the wide one once where it has a multilevel operation, gated or not. Both come to the
same set, which depends on nothing but which operations there are (`legal_congr`), in whatever way
the registry was built, and goes over the union of operations to the union of sets
(`legal_is_grouped`).
-/

namespace Warrant

/-- The texts that a nameable operation is to make legal. -/
def Operation.Lists (o : Operation) (s : String) : Prop :=
  (o.gated = true ∧ (s = o.entity ++ ":" ++ o.action ∨ s = o.entity ++ ":*")) ∨
  (o.gated = true ∧ o.multilevel = true ∧ s = o.entity ++ ":" ++ o.action ++ ":*") ∨
  (o.multilevel = true ∧ s = o.entity ++ ":*:*")

theorem Operation.mem_capabilities_iff_lists {o : Operation} {s : String} :
    s ∈ o.capabilities ↔ o.IsNameable ∧ o.Lists s := by
  by_cases h : o.IsNameable
  · rw [mem_capabilities_of_nameable h, Capability.render_entity_wide, Capability.render_narrow,
      Capability.render_entity, Capability.render_wide, Lists, and_iff_right h, or_comm, or_assoc]
  · rw [capabilities_eq_nil h]
    exact ⟨fun hs => absurd hs List.not_mem_nil, fun hs => absurd hs.1 h⟩

namespace Registry

/-! ### What is to be legal -/

/-- For every gated operation its own grant, and that of all actions on its entity. -/
def narrowForms (r : Registry) : Set String :=
  {s | ∃ o ∈ r.operations, o.IsNameable ∧ o.gated = true ∧
    (s = o.entity ++ ":" ++ o.action ∨ s = o.entity ++ ":*")}

/-- For every gated multilevel operation its own wide grant. -/
def wideForms (r : Registry) : Set String :=
  {s | ∃ o ∈ r.operations, o.IsNameable ∧ o.gated = true ∧ o.multilevel = true ∧
    s = o.entity ++ ":" ++ o.action ++ ":*"}

/-- For every entity with a multilevel operation the wide grant of all actions on it. -/
def blanketForms (r : Registry) : Set String :=
  {s | ∃ entity, (∃ o ∈ r.operations, o.IsNameable ∧ o.entity = entity ∧ o.multilevel = true) ∧
    s = entity ++ ":*:*"}

def group (r : Registry) (entity : String) : List Operation :=
  r.operations.filter fun o => o.IsNameable ∧ o.entity = entity

def groupForms (r : Registry) (entity : String) : List String :=
  let gated := (r.group entity).filter (·.gated)
  (gated.map fun o => entity ++ ":" ++ o.action) ++
  (if gated.isEmpty then [] else [entity ++ ":*"]) ++
  ((gated.filter (·.multilevel)).map fun o => entity ++ ":" ++ o.action ++ ":*") ++
  (if (r.group entity).any (·.multilevel) then [entity ++ ":*:*"] else [])

/-- What is legal, entity by entity. -/
def grouped (r : Registry) : TextSet :=
  let entities := TextSet.ofList (r.operations.map (·.entity))
  TextSet.ofList ("*:*:*" :: entities.toList.flatMap r.groupForms)

variable {r r' : Registry} {s entity action : String} {o : Operation}

theorem mem_legal_iff_lists :
    s ∈ r.legal ↔ s = "*:*:*" ∨ ∃ o ∈ r.operations, o.IsNameable ∧ o.Lists s := by
  simp only [mem_legal, Capability.render_global, Operation.mem_capabilities_iff_lists]

theorem mem_forms_iff_lists :
    s ∈ r.narrowForms ∪ r.wideForms ∪ r.blanketForms ↔
      ∃ o ∈ r.operations, o.IsNameable ∧ o.Lists s := by
  constructor
  · rintro ((⟨o, ho, hn, hs⟩ | ⟨o, ho, hn, hs⟩) | ⟨_, ⟨o, ho, hn, rfl, hm⟩, hs⟩)
    · exact ⟨o, ho, hn, .inl hs⟩
    · exact ⟨o, ho, hn, .inr (.inl hs)⟩
    · exact ⟨o, ho, hn, .inr (.inr ⟨hm, hs⟩)⟩
  · rintro ⟨o, ho, hn, hs | hs | ⟨hm, hs⟩⟩
    · exact .inl (.inl ⟨o, ho, hn, hs⟩)
    · exact .inl (.inr ⟨o, ho, hn, hs⟩)
    · exact .inr ⟨_, ⟨o, ho, hn, rfl, hm⟩, hs⟩

theorem mem_group : o ∈ r.group entity ↔ o ∈ r.operations ∧ o.IsNameable ∧ o.entity = entity := by
  simp [group]

theorem mem_groupForms : s ∈ r.groupForms entity ↔ ∃ o ∈ r.group entity, o.Lists s := by
  have hentity : ∀ o ∈ r.group entity, o.entity = entity := fun o ho => (mem_group.1 ho).2.2
  simp only [groupForms, List.mem_append, List.mem_map, List.mem_filter, List.mem_ite_nil_left,
    List.mem_ite_nil_right, List.isEmpty_iff, List.filter_eq_nil_iff, List.any_eq_true,
    List.mem_singleton]
  constructor
  · rintro (((⟨o, ⟨ho, hg⟩, rfl⟩ | ⟨hg, rfl⟩) | ⟨o, ⟨⟨ho, hg⟩, hm⟩, rfl⟩) | ⟨⟨o, ho, hm⟩, rfl⟩)
    · exact ⟨o, ho, .inl ⟨hg, .inl (by rw [hentity o ho])⟩⟩
    · obtain ⟨o, ho, hg⟩ : ∃ o ∈ r.group entity, o.gated = true := by simpa using hg
      exact ⟨o, ho, .inl ⟨hg, .inr (by rw [hentity o ho])⟩⟩
    · exact ⟨o, ho, .inr (.inl ⟨hg, hm, by rw [hentity o ho]⟩)⟩
    · exact ⟨o, ho, .inr (.inr ⟨hm, by rw [hentity o ho]⟩)⟩
  · rintro ⟨o, ho, hs⟩
    obtain rfl := hentity o ho
    rcases hs with ⟨hg, rfl | rfl⟩ | ⟨hg, hm, rfl⟩ | ⟨hm, rfl⟩
    · exact .inl (.inl (.inl ⟨o, ⟨ho, hg⟩, rfl⟩))
    · exact .inl (.inl (.inr ⟨fun hnone => hnone o ho hg, rfl⟩))
    · exact .inl (.inr ⟨o, ⟨⟨ho, hg⟩, hm⟩, rfl⟩)
    · exact .inr ⟨⟨o, ho, hm⟩, rfl⟩

theorem mem_grouped_iff_lists :
    s ∈ r.grouped ↔ s = "*:*:*" ∨ ∃ o ∈ r.operations, o.IsNameable ∧ o.Lists s := by
  simp only [grouped, TextSet.mem_ofList, List.mem_cons, List.mem_flatMap, ← TextSet.mem_def,
    List.mem_map, mem_groupForms, mem_group]
  refine or_congr_right ⟨?_, ?_⟩
  · rintro ⟨_, -, o, ⟨ho, hn, -⟩, hs⟩
    exact ⟨o, ho, hn, hs⟩
  · rintro ⟨o, ho, hn, hs⟩
    exact ⟨_, ⟨o, ho, rfl⟩, o, ⟨ho, hn, rfl⟩, hs⟩

/-! ### What it depends on -/

/-- Only which operations are listed matters, not their order or number. -/
theorem legal_congr (h : ∀ o, o ∈ r.operations ↔ o ∈ r'.operations) : r.legal = r'.legal := by
  ext s
  simp only [mem_legal_iff_lists, h]

theorem legal_append (xs ys : List Operation) :
    (Registry.mk (xs ++ ys)).legal = (Registry.mk xs).legal ∪ (Registry.mk ys).legal := by
  ext s
  simp only [TextSet.mem_union, mem_legal, List.mem_append, or_and_right, exists_or]
  exact or_or_distrib_left

theorem wide_mem_legal_iff (haction : action ≠ "*") :
    entity ++ ":" ++ action ++ ":*" ∈ r.legal ↔
      ∃ o ∈ r.operations, o.IsNameable ∧ o.entity = entity ∧ o.action = action ∧
        o.gated = true ∧ o.multilevel = true := by
  constructor
  · intro hs
    obtain ⟨c, hc⟩ := exists_render_of_mem_legal hs
    obtain ⟨rfl, rfl, hb⟩ := Capability.names_of_render_eq_wide hc.symm
    rw [hc] at hs
    rcases render_mem_legal_iff.1 hs with rfl | ⟨o, ho, hn, he, hy⟩
    · exact absurd rfl haction
    · rw [if_pos hb] at hy
      obtain ⟨hm, ha⟩ := hy
      obtain ⟨hg, ha⟩ := ha.resolve_left haction
      exact ⟨o, ho, hn, he, ha, hg, hm⟩
  · rintro ⟨o, ho, hn, rfl, rfl, hg, hm⟩
    exact mem_legal_iff_lists.2 (.inr ⟨o, ho, hn, .inr (.inl ⟨hg, hm, rfl⟩)⟩)

/-- A step in building a registry. A module that is installed may do anything to it. -/
inductive Build where
  | register (o : Operation)
  | extend (os : List Operation)
  | collect (os : List Operation)
  | install (module : Registry → Registry)

def Build.apply (r : Registry) : Build → Registry
  | register o => r.register o
  | extend os => r.extend os
  | collect os => ⟨os⟩
  | install module => module r

def build (r : Registry) (steps : List Build) : Registry := steps.foldl Build.apply r

/-- The legal set is what is to be legal, be that said for all operations together or entity by
entity. It is the same for all ways of building registries that list the same operations, and the
legal set of a union is the union of the legal sets. All its elements are written capabilities, and
a wide grant of one action is among them just if one operation of these names is both gated and
multilevel. -/
theorem legal_is_grouped (r : Registry) :
    {s | s ∈ r.legal} = {"*:*:*"} ∪ (r.narrowForms ∪ r.wideForms ∪ r.blanketForms) ∧
    r.legal = r.grouped ∧
    (∀ (r' : Registry) (steps steps' : List Build),
      (∀ o, o ∈ (r.build steps).operations ↔ o ∈ (r'.build steps').operations) →
        (r.build steps).legal = (r'.build steps').legal) ∧
    (∀ xs ys, (Registry.mk (xs ++ ys)).legal = (Registry.mk xs).legal ∪ (Registry.mk ys).legal) ∧
    (∀ s ∈ r.legal, ∃ c, Capability.parse s = .ok c ∧ c.render = s) ∧
    ∀ entity action, action ≠ "*" → (entity ++ ":" ++ action ++ ":*" ∈ r.legal ↔
      ∃ o ∈ r.operations, o.IsNameable ∧ o.entity = entity ∧ o.action = action ∧
        o.gated = true ∧ o.multilevel = true) := by
  refine ⟨?_, ?_, fun r' steps steps' => legal_congr, legal_append, ?_,
    fun _ _ => wide_mem_legal_iff⟩
  · ext s
    exact mem_legal_iff_lists.trans (or_congr_right mem_forms_iff_lists.symm)
  · ext s
    exact mem_legal_iff_lists.trans mem_grouped_iff_lists.symm
  · intro s hs
    obtain ⟨c, rfl⟩ := exists_render_of_mem_legal hs
    exact ⟨c, Capability.parse_render c, rfl⟩

/-- One operation is registered twice over with different properties and one has no name. Neither
makes the wide grant legal that only a gated multilevel operation would. -/
theorem legal_of_mixed_building :
    let steps : List Build := [.register (.free "stale" "view"),
      .collect [⟨"*", "edit", true, false⟩],
      .install fun r => (r.register (.restricted "post" "view")).register ⟨"post", "", true, true⟩,
      .extend [⟨"post", "view", false, true⟩]]
    let steps' : List Build := [.extend [⟨"post", "view", false, true⟩, ⟨"post", "", true, true⟩],
      .register ⟨"post", "view", false, true⟩, .register (.restricted "post" "view"),
      .register ⟨"*", "edit", true, false⟩]
    (empty.build steps).legal = (empty.build steps').legal ∧
      (empty.build steps).legal =
        TextSet.ofList ["*:*", "*:*:*", "*:edit", "post:*", "post:*:*", "post:view"] ∧
      "post" ++ ":" ++ "view" ++ ":*" ∉ (empty.build steps).legal := by
  intro steps steps'
  have hsame : ∀ o, o ∈ (empty.build steps).operations ↔ o ∈ (empty.build steps').operations := by
    intro o
    simp only [build, steps, steps', Build.apply, register, extend, empty, List.foldl_cons,
      List.foldl_nil, List.mem_append, List.mem_cons, List.not_mem_nil, or_false]
    grind
  have hnone : ¬ ∃ o ∈ (empty.build steps).operations, o.IsNameable ∧ o.entity = "post" ∧
      o.action = "view" ∧ o.gated = true ∧ o.multilevel = true := by decide
  obtain ⟨-, hgrouped, hbuilt, -, -, hwide⟩ := legal_is_grouped (empty.build steps)
  refine ⟨hbuilt _ [] _ fun o => ?_, ?_, fun hlegal => ?_⟩
  · exact hsame o
  · rw [hgrouped]
    decide
  · exact hnone ((hwide "post" "view" (by decide)).1 hlegal)

end Registry

end Warrant
