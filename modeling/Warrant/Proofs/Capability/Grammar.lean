import Warrant.Capability

/-!
# Reading and writing capabilities

A capability has one written form: `parse` accepts exactly the texts that `render` writes
(`parse_eq_ok_iff`), so a stored text stands for at most one capability.
-/

namespace Warrant.Capability

/-! ### Parts -/

/-- Joining names that hold no colon and splitting the text again gives the names back. -/
theorem segments_intercalate {parts : List (List Char)} (hne : parts ≠ [])
    (h : ∀ p ∈ parts, ':' ∉ p) :
    segments (String.ofList ([':'].intercalate parts)) = parts.map String.ofList := by
  unfold segments
  rw [String.toList_ofList, List.splitOn_intercalate ':' h hne]

theorem toList_eq_of_segments {text : String} {parts : List String} (h : segments text = parts) :
    text.toList = [':'].intercalate (parts.map String.toList) := by
  subst h
  unfold segments
  rw [List.map_map,
    show String.toList ∘ String.ofList = id from funext fun _ => String.toList_ofList,
    List.map_id, List.intercalate_splitOn]

def parts (c : Capability) : List String :=
  c.entity :: c.action :: if c.broad then [wildcard] else []

theorem toList_render (c : Capability) :
    c.render.toList = [':'].intercalate (c.parts.map String.toList) := by
  cases hb : c.broad <;> simp [render, parts, hb, wildcard]

theorem separator_not_mem_parts (c : Capability) : ∀ p ∈ c.parts.map String.toList, ':' ∉ p := by
  have hw : ':' ∉ wildcard.toList := by decide
  intro p hp
  obtain ⟨s, hs, rfl⟩ := List.mem_map.1 hp
  unfold parts at hs
  rcases List.mem_cons.1 hs with rfl | hs
  · exact c.entity_segment.2
  rcases List.mem_cons.1 hs with rfl | hs
  · exact c.action_segment.2
  split at hs
  · rw [List.mem_singleton.1 hs]; exact hw
  · cases hs

theorem segments_render (c : Capability) : segments c.render = c.parts := by
  have h : c.render = String.ofList ([':'].intercalate (c.parts.map String.toList)) := by
    rw [← toList_render, String.ofList_toList]
  rw [h, segments_intercalate (by simp [parts]) c.separator_not_mem_parts, List.map_map,
    show String.ofList ∘ String.toList = id from funext fun _ => String.ofList_toList, List.map_id]

/-! ### Making a capability of two names -/

theorem make_of_segments {entity action : String} {broad : Bool} (hentity : IsSegment entity)
    (haction : IsSegment action) :
    make entity action broad = .ok ⟨entity, action, broad, hentity, haction⟩ := by
  unfold make
  rw [dif_pos hentity, dif_pos haction]

theorem make_eq_ok_iff {entity action : String} {broad : Bool} {c : Capability} :
    make entity action broad = .ok c ↔
      c.entity = entity ∧ c.action = action ∧ c.broad = broad := by
  constructor
  · intro h
    unfold make at h
    split at h
    · split at h
      · cases h
        exact ⟨rfl, rfl, rfl⟩
      · split at h <;> cases h
    · split at h <;> cases h
  · rintro ⟨rfl, rfl, rfl⟩
    exact make_of_segments c.entity_segment c.action_segment

/-! ### Reading what was written -/

@[simp] theorem parse_render (c : Capability) : parse c.render = .ok c := by
  have hs := c.segments_render
  have he := c.entity_segment.1
  have ha := c.action_segment.1
  have hw : wildcard ≠ "" := by decide
  unfold parts at hs
  unfold parse
  split
  · rename_i entity action h
    rw [hs] at h
    cases hb : c.broad <;> simp [hb] at h
    obtain ⟨rfl, rfl⟩ := h
    rw [dif_neg (by simp [he, ha])]
    exact congrArg Except.ok (Capability.ext rfl rfl hb.symm)
  · rename_i entity action scope h
    rw [hs] at h
    cases hb : c.broad <;> simp [hb] at h
    obtain ⟨rfl, rfl, rfl⟩ := h
    rw [dif_neg (by simp [he, ha, hw]), if_pos rfl]
    exact congrArg Except.ok (Capability.ext rfl rfl hb.symm)
  · rename_i h2 h3
    cases hb : c.broad with
    | false => exact absurd (by rw [hs, hb]; rfl) (h2 c.entity c.action)
    | true => exact absurd (by rw [hs, hb]; rfl) (h3 c.entity c.action wildcard)

theorem render_of_parse {text : String} {c : Capability} (h : parse text = .ok c) :
    c.render = text := by
  have key (hs : segments text = c.parts) : c.render = text := by
    rw [← String.toList_inj, toList_render, toList_eq_of_segments hs]
  apply key
  unfold parse at h
  split at h
  · rename_i hs
    split at h
    · cases h
    · cases h; simpa [parts] using hs
  · rename_i hs
    split at h
    · cases h
    · split at h
      · rename_i hw
        cases h; simpa [parts, hw] using hs
      · cases h
  · cases h

theorem parse_eq_ok_iff {text : String} {c : Capability} : parse text = .ok c ↔ text = c.render :=
  ⟨fun h => (render_of_parse h).symm, fun h => h ▸ parse_render c⟩

theorem render_inj {c d : Capability} : c.render = d.render ↔ c = d := by
  refine ⟨fun h => ?_, fun h => h ▸ rfl⟩
  have hp : parse c.render = .ok d := parse_eq_ok_iff.2 h
  rw [parse_render] at hp
  exact Except.ok.inj hp

end Warrant.Capability
