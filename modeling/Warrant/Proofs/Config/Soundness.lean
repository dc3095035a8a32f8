import Mathlib.Data.List.Nodup
import Warrant.Proofs.Config.Acceptance
import Warrant.Proofs.Registry.Derivable

/-!
# The rules of a configuration

`Config.Sound` lists the rules that the declarations of a configuration keep. A text is accepted
just if it describes a configuration that keeps them (`parse_eq_ok_iff_sound`). The name of an
entity is among them only where the entity has an operation: that of any other may be empty or hold
a colon (`unnameable_entity_accepted`).
-/

namespace Warrant

namespace Config

variable {config : Config} {p : Principal} {o : Operation} {grant role user text : String}
  {seen ids declared : List String}

/-- The declarations keep the rules: operations have names, grants are capabilities that a registry
of named entities makes legal, no role and no user is declared twice, and users name roles that are
declared. -/
structure Sound (config : Config) : Prop where
  entity_names : ∀ e ∈ config.entities, e.actions ≠ [] → IsSegment e.name
  action_names : ∀ e ∈ config.entities, ∀ a ∈ e.actions, IsSegment a.name
  grants : ∀ p grant, config.Declares p grant → ∃ c, Capability.parse grant = .ok c ∧
    c.render = grant ∧ ∃ r : Registry, r.NamesEntities ∧ grant ∈ r.legal
  roles_distinct : (config.roles.map (·.id)).Nodup
  users_distinct : (config.users.map (·.id)).Nodup
  memberships : ∀ u ∈ config.users, ∀ role ∈ u.roles, ∃ r ∈ config.roles, r.id = role

/-! ### What each check says -/

theorem checkOperation_eq_ok_iff : checkOperation o = .ok () ↔ o.IsNameable := by
  unfold checkOperation
  cases hnarrow : Capability.narrow o.entity o.action with
  | ok c => exact iff_of_true rfl (Capability.isSegment_of_narrow hnarrow)
  | error reason =>
    refine iff_of_false nofun fun h => ?_
    rw [Capability.narrow_eq_ok h.1 h.2] at hnarrow
    cases hnarrow

theorem firstRepeated?_eq_none_iff :
    firstRepeated? seen ids = none ↔ ids.Nodup ∧ ∀ id ∈ ids, id ∉ seen := by
  induction ids generalizing seen with
  | nil => exact iff_of_true rfl ⟨List.nodup_nil, fun _ h => absurd h List.not_mem_nil⟩
  | cons id ids ih =>
    rw [firstRepeated?, List.nodup_cons, List.forall_mem_cons]
    split
    · rename_i hseen
      exact iff_of_false (Option.some_ne_none id) fun h => h.2.1 hseen
    · rename_i hseen
      simp only [ih, List.mem_cons, not_or]
      constructor
      · rintro ⟨hdistinct, hfresh⟩
        exact ⟨⟨fun hid => (hfresh id hid).1 rfl, hdistinct⟩, hseen, fun x hx => (hfresh x hx).2⟩
      · rintro ⟨⟨hid, hdistinct⟩, -, hfresh⟩
        exact ⟨hdistinct, fun x hx => ⟨fun hx' => hid (hx' ▸ hx), hfresh x hx⟩⟩

theorem checkDistinct_eq_ok_iff {error : String → ConfigError} :
    checkDistinct error ids = .ok () ↔ ids.Nodup := by
  have hnone : firstRepeated? [] ids = none ↔ ids.Nodup := by
    rw [firstRepeated?_eq_none_iff, and_iff_left fun _ _ => List.not_mem_nil]
  rw [← hnone]
  unfold checkDistinct
  cases firstRepeated? [] ids with
  | none => exact iff_of_true rfl rfl
  | some id => exact iff_of_false nofun nofun

theorem checkMembership_eq_ok_iff :
    checkMembership declared user role = .ok () ↔ role ∈ declared := by
  unfold checkMembership
  split
  · rename_i h
    exact iff_of_true rfl h
  · rename_i h
    exact iff_of_false nofun h

/-! ### What all of them say -/

/-- Where an entity has no operation, nothing is asked of its name. -/
theorem forall_operations_iff :
    (∀ o ∈ config.operations, o.IsNameable) ↔
      (∀ e ∈ config.entities, e.actions ≠ [] → IsSegment e.name) ∧
        ∀ e ∈ config.entities, ∀ a ∈ e.actions, IsSegment a.name := by
  simp only [operations, List.mem_flatMap, List.mem_map]
  constructor
  · intro h
    refine ⟨fun e he hne => ?_, fun e he a ha => (h _ ⟨e, he, a, ha, rfl⟩).2⟩
    obtain ⟨a, ha⟩ := List.exists_mem_of_ne_nil _ hne
    exact (h _ ⟨e, he, a, ha, rfl⟩).1
  · rintro ⟨hentity, haction⟩ _ ⟨e, he, a, ha, rfl⟩
    exact ⟨hentity e he (List.ne_nil_of_mem ha), haction e he a ha⟩

theorem checkGrant_eq_ok_iff_named :
    checkGrant p grant = .ok () ↔ ∃ c, Capability.parse grant = .ok c ∧ c.render = grant ∧
      ∃ r : Registry, r.NamesEntities ∧ grant ∈ r.legal := by
  rw [checkGrant_eq_ok_iff]
  refine exists_congr fun c => and_congr_right fun hc => ?_
  have hrender := Capability.render_of_parse hc
  rw [Capability.isDerivable_iff_named, hrender, and_iff_right rfl]

theorem validate_eq_ok_iff_sound : config.validate = .ok () ↔ config.Sound := by
  rw [validate_eq_ok_iff]
  simp only [checkOperation_eq_ok_iff, checkDistinct_eq_ok_iff, checkMembership_eq_ok_iff,
    checkGrant_eq_ok_iff_named, forall_operations_iff]
  constructor
  · rintro ⟨⟨hentity, haction⟩, hroles, husers, hrole, huser⟩
    refine ⟨hentity, haction, ?_, hroles, husers, fun u hu role hrole => ?_⟩
    · rintro p grant (⟨r, hr, -, hgrant⟩ | ⟨u, hu, -, hgrant⟩)
      · exact hrole r hr grant hgrant
      · exact (huser u hu).1 grant hgrant
    · exact List.mem_map.1 ((huser u hu).2 role hrole)
  · rintro ⟨hentity, haction, hgrants, hroles, husers, hmember⟩
    refine ⟨⟨hentity, haction⟩, hroles, husers, fun r hr grant hgrant => ?_, fun u hu =>
      ⟨fun grant hgrant => ?_, fun role hrole => List.mem_map.2 (hmember u hu role hrole)⟩⟩
    · exact hgrants (.role r.id) grant (.inl ⟨r, hr, rfl, hgrant⟩)
    · exact hgrants (.user u.id) grant (.inr ⟨u, hu, rfl, hgrant⟩)

/-- A text is accepted just if it describes a configuration that keeps the rules. -/
theorem parse_eq_ok_iff_sound (text : String) (config : Config) :
    parse text = .ok config ↔ read? text = some config ∧ config.Sound := by
  rw [← validate_eq_ok_iff_sound, parse]
  cases hread : read? text with
  | none => simp
  | some c =>
    dsimp only
    rw [then_eq_ok_iff]
    constructor
    · rintro ⟨hvalid, hc⟩
      cases hc
      exact ⟨rfl, hvalid⟩
    · rintro ⟨hc, hvalid⟩
      cases hc
      exact ⟨hvalid, rfl⟩

/-- A user that is named as its role, which is declared after it, is accepted; a role that is
declared twice breaks the rules. -/
theorem later_role_is_sound :
    let text := "[[users]]\nid = \"ann\"\nroles = [\"ann\"]\n\n" ++
      "[[roles]]\nid = \"ann\"\ngrants = [\"post:*\", \"*:*:*\"]\n"
    let config : Config := ⟨[], [⟨"ann", ["post:*", "*:*:*"]⟩], [⟨"ann", ["ann"], []⟩]⟩
    let twice : Config := ⟨[], [⟨"ann", []⟩, ⟨"ann", []⟩], []⟩
    parse text = .ok config ∧ config.Sound ∧
      read? "[[roles]]\nid = \"ann\"\n[[roles]]\nid = \"ann\"\n" = some twice ∧ ¬ twice.Sound := by
  intro text config twice
  have hparse : parse text = .ok config := by decide +kernel
  have hread : read? "[[roles]]\nid = \"ann\"\n[[roles]]\nid = \"ann\"\n" = some twice := by
    decide +kernel
  refine ⟨hparse, ((parse_eq_ok_iff_sound text config).1 hparse).2, hread, fun hsound => ?_⟩
  have htwice := (parse_eq_ok_iff_sound _ twice).2 ⟨hread, hsound⟩
  rw [parse, hread] at htwice
  cases htwice

/-- An entity without operations is accepted by a name that cannot stand in a capability, which is
rejected as soon as the entity has an operation. -/
theorem unnameable_entity_accepted :
    let text := "[[entities]]\nname = \"po:st\"\n"
    let config : Config := ⟨[⟨"po:st", []⟩], [], []⟩
    parse text = .ok config ∧ (∃ e ∈ config.entities, ¬ IsSegment e.name) ∧
      parse (text ++ "actions = [\x7b name = \"edit\" \x7d]\n") =
        .error (.invalidOperation "po:st" "edit" (.separatorInSegment "po:st")) := by
  intro text config
  exact ⟨by decide +kernel, ⟨_, List.mem_cons_self, by decide⟩, by decide +kernel⟩

end Config

end Warrant
