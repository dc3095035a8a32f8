import Warrant.Proofs.Capability.Classification

/-!
# Constructors and the parser

A capability is made of two names or read from a text. Both ways come to the same
(`constructors_agree`): two names make a capability just if the text that joins them is read as one
that has these names. A text may be read although the names that it was joined from are refused,
when one of them holds a colon; then it is read with other names.
-/

namespace Warrant.Capability

variable {entity action : String} {broad : Bool} {c : Capability} {e : GrammarError}

/-- What two names are refused for: an empty one before a colon, and a colon in the first before one
in the second. -/
def refusal? (entity action : String) : Option GrammarError :=
  if entity = "" ∨ action = "" then some (.emptySegment (entity ++ ":" ++ action))
  else if ':' ∈ entity.toList then some (.separatorInSegment entity)
  else if ':' ∈ action.toList then some (.separatorInSegment action)
  else none

theorem refusal?_eq_none_iff :
    refusal? entity action = none ↔ IsSegment entity ∧ IsSegment action := by
  unfold refusal? IsSegment
  split
  · rename_i hempty
    refine iff_of_false nofun fun h => ?_
    exact hempty.elim h.1.1 h.2.1
  · rename_i hnames
    obtain ⟨hentity, haction⟩ := not_or.1 hnames
    split
    · rename_i hcolon
      exact iff_of_false nofun fun h => h.1.2 hcolon
    · rename_i hcolon
      split
      · rename_i hcolon'
        exact iff_of_false nofun fun h => h.2.2 hcolon'
      · rename_i hcolon'
        exact iff_of_true rfl ⟨⟨hentity, hcolon⟩, haction, hcolon'⟩

/-! ### What a constructor makes -/

theorem make_of_refusal (h : refusal? entity action = some e) :
    make entity action broad = .error e := by
  unfold refusal? at h
  unfold make
  split at h
  · rename_i hempty
    cases h
    split
    · rename_i hentity
      have haction : action = "" := hempty.resolve_left hentity.1
      rw [dif_neg fun hsegment => hsegment.1 haction, if_pos haction]
    · rfl
  · rename_i hnames
    split at h
    · rename_i hcolon
      cases h
      rw [dif_neg fun hsegment => hsegment.2 hcolon, if_neg hnames]
    · rename_i hcolon
      obtain ⟨hentity, haction⟩ := not_or.1 hnames
      split at h
      · rename_i hcolon'
        cases h
        rw [dif_pos ⟨hentity, hcolon⟩, dif_neg fun hsegment => hsegment.2 hcolon', if_neg haction]
      · cases h

theorem make_eq_error_iff :
    make entity action broad = .error e ↔ refusal? entity action = some e := by
  constructor
  · intro h
    cases hrefusal : refusal? entity action with
    | some e' =>
      rw [make_of_refusal hrefusal] at h
      exact congrArg some (Except.error.inj h)
    | none =>
      obtain ⟨hentity, haction⟩ := refusal?_eq_none_iff.1 hrefusal
      rw [make_of_segments hentity haction] at h
      cases h
  · exact make_of_refusal

/-! ### What the joined text is read as -/

theorem scope_inj {b b' : Bool} :
    (if b then ":*" else "") = (if b' then ":*" else "") ↔ b = b' := by
  revert b b'
  decide

theorem make_eq_ok_iff_parse :
    make entity action broad = .ok c ↔
      parse (entity ++ ":" ++ action ++ if broad then ":*" else "") = .ok c ∧
        c.entity = entity ∧ c.action = action := by
  rw [make_eq_ok_iff, parse_eq_ok_iff]
  constructor
  · rintro ⟨rfl, rfl, rfl⟩
    exact ⟨rfl, rfl, rfl⟩
  · rintro ⟨htext, rfl, rfl⟩
    exact ⟨rfl, rfl, (scope_inj.1 ((String.append_right_inj _).1 htext)).symm⟩

theorem narrow_eq_ok_iff_parse :
    narrow entity action = .ok c ↔
      parse (entity ++ ":" ++ action) = .ok c ∧ c.entity = entity ∧ c.action = action := by
  have hmake : narrow entity action = .ok c ↔ parse (entity ++ ":" ++ action ++ "") = .ok c ∧
      c.entity = entity ∧ c.action = action := make_eq_ok_iff_parse
  rwa [String.append_empty] at hmake

theorem wide_eq_ok_iff_parse :
    wide entity action = .ok c ↔
      parse (entity ++ ":" ++ action ++ ":*") = .ok c ∧ c.entity = entity ∧ c.action = action :=
  make_eq_ok_iff_parse

theorem segments_join (entity action : String) :
    segments (entity ++ ":" ++ action) = segments entity ++ segments action := by
  unfold segments
  have hjoin : (entity ++ ":" ++ action).toList = entity.toList ++ ':' :: action.toList := by
    simp
  rw [hjoin, List.splitOn_eq_splitOnP, List.splitOnP_append_cons _ _ (by simp), List.map_append]
  rfl

/-- Where the joined text is read as a wide capability, one of the names holds a colon, and no
narrow capability is made of them. -/
theorem narrow_of_parse_broad (h : parse (entity ++ ":" ++ action) = .ok c)
    (hbroad : c.broad = true) :
    narrow entity action =
      .error (.separatorInSegment (if ':' ∈ entity.toList then entity else action)) := by
  have hempty : "" ∉ segments entity ++ segments action := by
    rw [← segments_join, segments_of_parse h]
    exact c.empty_not_mem_parts
  obtain ⟨hleft, hright⟩ : "" ∉ segments entity ∧ "" ∉ segments action := by
    simpa only [List.mem_append, not_or] using hempty
  -- An empty name is its own only part.
  have hself : "" ∈ segments "" := List.mem_singleton_self ""
  have hentity : entity ≠ "" := fun he => hleft (he.symm ▸ hself)
  have haction : action ≠ "" := fun ha => hright (ha.symm ▸ hself)
  refine make_of_refusal ?_
  unfold refusal?
  rw [if_neg (not_or.2 ⟨hentity, haction⟩)]
  split
  · rfl
  · rename_i hcolon
    rw [if_pos]
    by_contra hcolon'
    have hnarrow : narrow entity action = .ok _ :=
      make_of_segments ⟨hentity, hcolon⟩ ⟨haction, hcolon'⟩
    obtain ⟨hparse, -⟩ := narrow_eq_ok_iff_parse.1 hnarrow
    cases h.symm.trans hparse
    cases hbroad

/-- A constructor makes a capability of two names just if the joined text, with the scope after it
for a wide one, is read as a capability of these names. Every capability, whichever way it came to
be, is made of its names, is read from its written form, and shares this form with no other. A
constructor fails as `refusal?` says; so where a colon in a name would make a wide capability of the
joined text, the name is refused. -/
theorem constructors_agree (entity action : String) :
    (∀ c, narrow entity action = .ok c ↔
      parse (entity ++ ":" ++ action) = .ok c ∧ c.entity = entity ∧ c.action = action) ∧
    (∀ c, wide entity action = .ok c ↔
      parse (entity ++ ":" ++ action ++ ":*") = .ok c ∧ c.entity = entity ∧ c.action = action) ∧
    (∀ c : Capability, (if c.broad then wide else narrow) c.entity c.action = .ok c ∧
      parse c.render = .ok c ∧ ∀ d : Capability, c.render = d.render → c = d) ∧
    (∀ e, (narrow entity action = .error e ↔ refusal? entity action = some e) ∧
      (wide entity action = .error e ↔ refusal? entity action = some e)) ∧
    ∀ c, parse (entity ++ ":" ++ action) = .ok c → c.broad = true →
      narrow entity action =
        .error (.separatorInSegment (if ':' ∈ entity.toList then entity else action)) := by
  refine ⟨fun c => narrow_eq_ok_iff_parse, fun c => wide_eq_ok_iff_parse, fun c => ⟨?_,
    parse_render c, fun d => render_inj.1⟩, fun e => ⟨make_eq_error_iff, make_eq_error_iff⟩,
    fun c => narrow_of_parse_broad⟩
  cases hb : c.broad with
  | true => exact make_eq_ok_iff.2 ⟨rfl, rfl, hb⟩
  | false => exact make_eq_ok_iff.2 ⟨rfl, rfl, hb⟩

/-- The joined text is read as the deletion of any post, and no capability is made of the names. -/
theorem smuggled_scope_refused :
    (parse ("post" ++ ":" ++ "delete:*")).toOption.map (·.broad) = some true ∧
      narrow "post" "delete:*" = .error (.separatorInSegment "delete:*") := by
  let deletion : Capability := ⟨"post", "delete", true, by decide, by decide⟩
  have hparse : parse ("post" ++ ":" ++ "delete:*") = .ok deletion := by decide
  obtain ⟨-, -, -, -, hsmuggled⟩ := constructors_agree "post" "delete:*"
  exact ⟨by rw [hparse]; rfl, hsmuggled deletion hparse rfl⟩

end Warrant.Capability
