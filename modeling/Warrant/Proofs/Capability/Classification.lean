import Mathlib.Data.List.Basic
import Warrant.Proofs.Capability.Grammar

/-!
# What reading a capability comes to

A text has one part more than it has colons (`length_segments`). The number of colons and the parts
decide how a text is read, and which error it gets where several rules are broken: the number of
parts counts before an empty part, and that before a scope other than the wildcard
(`parse_classified`). Every error names the text, so no two texts are read alike.
-/

namespace Warrant.Capability

variable {text other : String} {c : Capability} {e : GrammarError}

/-! ### Parts and colons -/

theorem length_splitOn_colon (cs : List Char) : (cs.splitOn ':').length = cs.count ':' + 1 := by
  induction cs with
  | nil => rfl
  | cons c cs ih =>
    rw [List.splitOn_eq_splitOnP] at ih ⊢
    rw [List.splitOnP_cons_eq_if_modifyHead, List.count_cons]
    split
    · rw [List.length_cons, ih]
    · rw [List.length_modifyHead, ih, Nat.add_zero]

theorem length_segments (text : String) : (segments text).length = text.toList.count ':' + 1 := by
  unfold segments
  rw [List.length_map, length_splitOn_colon]

theorem intercalate_segments (text : String) : ":".intercalate (segments text) = text := by
  rw [← String.toList_inj, String.toList_intercalate]
  exact (toList_eq_of_segments rfl).symm

/-! ### Each outcome -/

theorem segments_of_parse (h : parse text = .ok c) : segments text = c.parts := by
  rw [← render_of_parse h, segments_render]

theorem empty_not_mem_parts (c : Capability) : "" ∉ c.parts := by
  have he := c.entity_segment.1
  have ha := c.action_segment.1
  unfold parts
  cases c.broad <;> simp [wildcard, he.symm, ha.symm]

/-- Which rule a text breaks, by the error that it is read with. -/
theorem parse_error_cases (h : parse text = .error e) :
    (e = .segmentCount text (segments text).length ∧
        (segments text).length ≠ 2 ∧ (segments text).length ≠ 3) ∨
      (e = .emptySegment text ∧ "" ∈ segments text ∧
        ((segments text).length = 2 ∨ (segments text).length = 3)) ∨
      ∃ entity action scope, e = .invalidScope text scope ∧ "" ∉ segments text ∧
        segments text = [entity, action, scope] ∧ scope ≠ wildcard := by
  unfold parse at h
  split at h
  · rename_i hparts
    split at h
    · rename_i hempty
      cases h
      refine .inr (.inl ⟨rfl, ?_, .inl (by rw [hparts]; rfl)⟩)
      rw [hparts]
      simpa [eq_comm] using hempty
    · cases h
  · rename_i entity action scope hparts
    split at h
    · rename_i hempty
      cases h
      refine .inr (.inl ⟨rfl, ?_, .inr (by rw [hparts]; rfl)⟩)
      rw [hparts]
      simpa [eq_comm] using hempty
    · rename_i hempty
      split at h
      · cases h
      · rename_i hscope
        cases h
        refine .inr (.inr ⟨entity, action, scope, rfl, ?_, hparts, hscope⟩)
        rw [hparts]
        simpa [eq_comm] using hempty
  · rename_i htwo hthree
    cases h
    refine .inl ⟨rfl, fun hlength => ?_, fun hlength => ?_⟩
    · obtain ⟨entity, action, hparts⟩ := List.length_eq_two.1 hlength
      exact htwo entity action hparts
    · obtain ⟨entity, action, scope, hparts⟩ := List.length_eq_three.1 hlength
      exact hthree entity action scope hparts

/-- Texts that are read alike, be it with an error, are equal. -/
theorem parse_inj (h : parse other = parse text) : other = text := by
  cases htext : parse text with
  | ok c => rw [← render_of_parse (h.trans htext), render_of_parse htext]
  | error e =>
    rcases parse_error_cases htext with ⟨rfl, -⟩ | ⟨rfl, -⟩ | ⟨_, _, _, rfl, -⟩ <;>
      rcases parse_error_cases (h.trans htext) with ⟨he, -⟩ | ⟨he, -⟩ | ⟨_, _, _, he, -⟩ <;>
      cases he <;> rfl

/-- Only a wide capability of these two names is written with a wildcard after them, whatever texts
they are. -/
theorem names_of_render_eq_wide {entity action : String}
    (h : c.render = entity ++ ":" ++ action ++ ":*") :
    c.entity = entity ∧ c.action = action ∧ c.broad = true := by
  have htext : c.render =
      String.ofList ([':'].intercalate [entity.toList, action.toList, ['*']]) := by
    rw [h, ← String.toList_inj]
    simp
  -- A capability has at most three parts, so neither name holds a colon.
  have hcount : entity.toList.count ':' + action.toList.count ':' + 3 = c.parts.length := by
    rw [← segments_render, length_segments, h]
    simp only [String.toList_append, List.count_append]
    simp
    omega
  have hlength : c.parts.length ≤ 3 := by
    unfold parts
    cases c.broad <;> simp
  have hentity : ':' ∉ entity.toList := List.count_eq_zero.1 (by omega)
  have haction : ':' ∉ action.toList := List.count_eq_zero.1 (by omega)
  have hparts : c.parts = [entity, action, "*"] := by
    rw [← segments_render, htext, segments_intercalate (by simp) (by simp [hentity, haction])]
    simp
  unfold parts at hparts
  cases hb : c.broad with
  | false => simp [hb] at hparts
  | true =>
    obtain ⟨rfl, rfl⟩ : c.entity = entity ∧ c.action = action := by
      simpa [hb, wildcard] using hparts
    exact ⟨rfl, rfl, rfl⟩

/-! ### Classification -/

/-- A text with one or two colons whose parts are not empty, the third one the wildcard, is read as
the capability that it writes out. Any other text gets the error of the first rule that it breaks,
and the error names the text. -/
theorem parse_classified (text : String) :
    let n := text.toList.count ':'
    let parts := segments text
    (parts.length = n + 1 ∧ ":".intercalate parts = text ∧ ∀ p ∈ parts, ':' ∉ p.toList) ∧
    (if n = 0 ∨ 3 ≤ n then parse text = .error (.segmentCount text (n + 1))
      else if "" ∈ parts then parse text = .error (.emptySegment text)
      else if n = 2 ∧ parts[2]? ≠ some "*" then
        ∃ scope, parts[2]? = some scope ∧ parse text = .error (.invalidScope text scope)
      else ∃ c, parse text = .ok c ∧ parts[0]? = some c.entity ∧ parts[1]? = some c.action ∧
        (c.broad = true ↔ n = 2)) ∧
    (∀ c, parse text = .ok c → c.render = text) ∧
    ∀ other, parse other = parse text → other = text := by
  intro n parts
  have hlength : parts.length = n + 1 := length_segments text
  refine ⟨⟨hlength, intercalate_segments text, fun p hp => separator_not_mem_of_mem_segments hp⟩,
    ?_, fun c => render_of_parse, fun other => parse_inj⟩
  cases hread : parse text with
  | ok c =>
    have hparts : parts = c.parts := segments_of_parse hread
    have hempty : "" ∉ parts := hparts ▸ empty_not_mem_parts c
    unfold Capability.parts at hparts
    cases hb : c.broad with
    | false =>
      rw [hb] at hparts
      have hn : n = 1 := by
        rw [hparts] at hlength
        exact (Nat.succ.inj hlength).symm
      rw [if_neg (by omega), if_neg hempty, if_neg (by omega)]
      exact ⟨c, rfl, by rw [hparts]; rfl, by rw [hparts]; rfl, by simp [hb, hn]⟩
    | true =>
      rw [hb] at hparts
      have hn : n = 2 := by
        rw [hparts] at hlength
        exact (Nat.succ.inj hlength).symm
      have hthird : parts[2]? = some "*" := by
        rw [hparts]
        rfl
      rw [if_neg (by omega), if_neg hempty, if_neg fun h => h.2 hthird]
      exact ⟨c, rfl, by rw [hparts]; rfl, by rw [hparts]; rfl, by simp [hb, hn]⟩
  | error e =>
    rcases parse_error_cases hread with
      ⟨rfl, htwo, hthree⟩ | ⟨rfl, hempty, hn⟩ | ⟨entity, action, scope, rfl, hempty, hparts, hscope⟩
    · have hn : n = 0 ∨ 3 ≤ n := by
        change parts.length ≠ 2 at htwo
        change parts.length ≠ 3 at hthree
        omega
      rw [if_pos hn, ← hlength]
    · have hn' : ¬ (n = 0 ∨ 3 ≤ n) := by
        change parts.length = 2 ∨ parts.length = 3 at hn
        omega
      rw [if_neg hn', if_pos hempty]
    · have hn : n = 2 := by
        rw [show parts = _ from hparts] at hlength
        simpa using hlength.symm
      have hthird : parts[2]? = some scope := by
        rw [show parts = _ from hparts]
        rfl
      have hother : parts[2]? ≠ some "*" := fun h => hscope (Option.some.inj (hthird.symm.trans h))
      rw [if_neg (by omega), if_neg hempty, if_pos ⟨hn, hother⟩]
      exact ⟨scope, hthird, rfl⟩

/-- Texts that break several rules get the error of the first one. -/
theorem first_broken_rule :
    parse ":::x" = .error (.segmentCount ":::x" 4) ∧
      parse "post::mine" = .error (.emptySegment "post::mine") ∧
      parse "post:edit:mine" = .error (.invalidScope "post:edit:mine" "mine") := by
  obtain ⟨-, hcount, -⟩ := parse_classified ":::x"
  obtain ⟨-, hempty, -⟩ := parse_classified "post::mine"
  obtain ⟨-, hscope, -⟩ := parse_classified "post:edit:mine"
  rw [if_pos (by decide)] at hcount
  rw [if_neg (by decide), if_pos (by decide)] at hempty
  rw [if_neg (by decide), if_neg (by decide), if_pos (by decide)] at hscope
  obtain ⟨scope, hthird, hread⟩ := hscope
  obtain rfl : "mine" = scope := Option.some.inj hthird
  exact ⟨hcount, hempty, hread⟩

end Warrant.Capability
