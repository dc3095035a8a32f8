import Warrant.Proofs.Engine.Request
import Warrant.Proofs.Engine.Synchronization
import Warrant.Proofs.Registry.Legal

/-!
# What a synchronised engine permits

After a synchronisation with a registry the answer to a request can be read off the operations of
the registry and the texts that the principal holds: `GrantsAll` and `GrantsOwn` say when, without
a catalog, a parser or a matcher. Texts that are no capability, or that the registry does not make
legal, play no part.
-/

namespace Warrant

namespace Registry

/-- The grants reach every resource: they hold the global capability, or, for the entity or for
every entity, the wide grant on all actions while a multilevel operation is there, or the wide grant
on this action while it is gated and multilevel. -/
def GrantsAll (r : Registry) (grants : TextSet) (entity action : String) : Prop :=
  "*:*:*" ∈ grants ∨ ∃ name, (name = entity ∨ name = "*") ∧
    (name ++ ":*:*" ∈ grants ∧
        (∃ o ∈ r.operations, o.IsNameable ∧ o.entity = name ∧ o.multilevel = true) ∨
      name ++ ":" ++ action ++ ":*" ∈ grants ∧
        ∃ o ∈ r.operations, o.IsNameable ∧ o.entity = name ∧ o.action = action ∧
          o.gated = true ∧ o.multilevel = true)

/-- The grants reach what the principal owns: they hold, for the entity or for every entity, the
grant on all actions while a gated operation is there, or the grant on this action while it is
gated. -/
def GrantsOwn (r : Registry) (grants : TextSet) (entity action : String) : Prop :=
  ∃ name, (name = entity ∨ name = "*") ∧
    (name ++ ":*" ∈ grants ∧
        (∃ o ∈ r.operations, o.IsNameable ∧ o.entity = name ∧ o.gated = true) ∨
      name ++ ":" ++ action ∈ grants ∧
        ∃ o ∈ r.operations, o.IsNameable ∧ o.entity = name ∧ o.action = action ∧ o.gated = true)

variable {r : Registry} {grants : TextSet} {entity action : String} {c : Capability}

open Access

theorem covers_iff : c.covers entity action = true ↔
    (c.entity = "*" ∨ c.entity = entity) ∧ (c.action = "*" ∨ c.action = action) := by
  simp only [Capability.covers, Bool.and_eq_true, Bool.or_eq_true, decide_eq_true_eq]
  exact Iff.rfl

theorem grantsAll_of_applies (h : Applies r.legal grants entity action c) (hb : c.broad = true) :
    r.GrantsAll grants entity action := by
  obtain ⟨hg, hl, hc⟩ := h
  obtain ⟨hentity, haction⟩ := covers_iff.1 hc
  rcases render_mem_legal_iff.1 hl with rfl | ⟨o, ho, hn, he, hy⟩
  · exact .inl (Capability.render_global ▸ hg)
  obtain ⟨name, act, broad, hname, hact⟩ := c
  subst hb
  obtain ⟨hm, ha⟩ := hy
  refine .inr ⟨name, hentity.symm, ?_⟩
  by_cases hw : act = wildcard
  · subst hw
    rw [Capability.render_entity_wide] at hg
    exact .inl ⟨hg, o, ho, hn, he, hm⟩
  · obtain ⟨hgated, hoa⟩ := ha.resolve_left hw
    obtain rfl := haction.resolve_left hw
    rw [Capability.render_wide] at hg
    exact .inr ⟨hg, o, ho, hn, he, hoa, hgated, hm⟩

theorem exists_applies_of_grantsAll (h : r.GrantsAll grants entity action) :
    ∃ c, Applies r.legal grants entity action c ∧ c.broad = true := by
  rcases h with hg | ⟨name, hname, ⟨hg, o, ho, hn, rfl, hm⟩ | ⟨hg, o, ho, hn, rfl, rfl, hgated, hm⟩⟩
  · refine ⟨.global, ⟨?_, render_mem_legal_iff.2 (.inl rfl), ?_⟩, rfl⟩
    · rw [Capability.render_global]; exact hg
    · exact covers_iff.2 ⟨.inl rfl, .inl rfl⟩
  · refine ⟨⟨o.entity, wildcard, true, hn.1, Capability.isSegment_wildcard⟩, ⟨?_, ?_, ?_⟩, rfl⟩
    · rw [Capability.render_entity_wide]; exact hg
    · exact render_mem_legal_iff.2 (.inr ⟨o, ho, hn, rfl, hm, .inl rfl⟩)
    · exact covers_iff.2 ⟨hname.symm, .inl rfl⟩
  · refine ⟨⟨o.entity, o.action, true, hn.1, hn.2⟩, ⟨?_, ?_, ?_⟩, rfl⟩
    · rw [Capability.render_wide]; exact hg
    · exact render_mem_legal_iff.2 (.inr ⟨o, ho, hn, rfl, hm, .inr ⟨hgated, rfl⟩⟩)
    · exact covers_iff.2 ⟨hname.symm, .inr rfl⟩

theorem grantsOwn_of_applies (h : Applies r.legal grants entity action c) (hb : c.broad = false) :
    r.GrantsOwn grants entity action := by
  obtain ⟨hg, hl, hc⟩ := h
  obtain ⟨hentity, haction⟩ := covers_iff.1 hc
  rcases render_mem_legal_iff.1 hl with rfl | ⟨o, ho, hn, he, hy⟩
  · cases hb
  obtain ⟨name, act, broad, hname, hact⟩ := c
  subst hb
  obtain ⟨hgated, ha⟩ := hy
  refine ⟨name, hentity.symm, ?_⟩
  by_cases hw : act = wildcard
  · subst hw
    rw [Capability.render_entity] at hg
    exact .inl ⟨hg, o, ho, hn, he, hgated⟩
  · obtain rfl := haction.resolve_left hw
    rw [Capability.render_narrow] at hg
    exact .inr ⟨hg, o, ho, hn, he, ha.resolve_left hw, hgated⟩

theorem exists_applies_of_grantsOwn (h : r.GrantsOwn grants entity action) :
    ∃ c, Applies r.legal grants entity action c := by
  obtain ⟨name, hname, ⟨hg, o, ho, hn, rfl, hgated⟩ | ⟨hg, o, ho, hn, rfl, rfl, hgated⟩⟩ := h
  · refine ⟨⟨o.entity, wildcard, false, hn.1, Capability.isSegment_wildcard⟩, ?_, ?_, ?_⟩
    · rw [Capability.render_entity]; exact hg
    · exact render_mem_legal_iff.2 (.inr ⟨o, ho, hn, rfl, hgated, .inl rfl⟩)
    · exact covers_iff.2 ⟨hname.symm, .inl rfl⟩
  · refine ⟨⟨o.entity, o.action, false, hn.1, hn.2⟩, ?_, ?_, ?_⟩
    · rw [Capability.render_narrow]; exact hg
    · exact render_mem_legal_iff.2 (.inr ⟨o, ho, hn, rfl, hgated, .inr rfl⟩)
    · exact covers_iff.2 ⟨hname.symm, .inr rfl⟩

/-! ### The tier against the legal set -/

theorem all_le_tierAgainst_legal :
    .all ≤ tierAgainst r.legal grants entity action ↔ r.GrantsAll grants entity action := by
  rw [le_tierAgainst_iff]
  constructor
  · rintro (h | ⟨c, hc, ht⟩)
    · cases h
    · exact grantsAll_of_applies hc (all_le_tier_iff.1 ht)
  · intro h
    obtain ⟨c, hc, hb⟩ := exists_applies_of_grantsAll h
    exact .inr ⟨c, hc, all_le_tier_iff.2 hb⟩

theorem own_le_tierAgainst_legal :
    .own ≤ tierAgainst r.legal grants entity action ↔
      r.GrantsAll grants entity action ∨ r.GrantsOwn grants entity action := by
  rw [le_tierAgainst_iff]
  constructor
  · rintro (h | ⟨c, hc, -⟩)
    · cases h
    · cases hb : c.broad with
      | true => exact .inl (grantsAll_of_applies hc hb)
      | false => exact .inr (grantsOwn_of_applies hc hb)
  · rintro (h | h)
    · obtain ⟨c, hc, -⟩ := exists_applies_of_grantsAll h
      exact .inr ⟨c, hc, own_le_tier c⟩
    · obtain ⟨c, hc⟩ := exists_applies_of_grantsOwn h
      exact .inr ⟨c, hc, own_le_tier c⟩

end Registry

namespace Engine

variable {κ : Type} [CatalogStore κ]

theorem holds_after_synchronize {law : CatalogLaw κ} {r : Registry} {e : Engine κ}
    {before : TextSet} {report : Report} (hbefore : law.Holds e.catalog before)
    (hsync : (synchronize r e).answer = .ok report) :
    law.Holds (synchronize r e).state.catalog r.legal := by
  have hfree : e.guard.held = false := by
    cases hheld : e.guard.held with
    | false => rfl
    | true =>
      unfold synchronize at hsync
      rw [runSync_of_held hheld] at hsync
      cases hsync
  obtain ⟨-, k, hk, he⟩ := (runSync_ends r false law hfree hbefore).of_ok hsync
  unfold synchronize
  rw [he]
  exact hk

theorem load_after_synchronize {law : CatalogLaw κ} {r : Registry} {e : Engine κ} {later : κ}
    {before s : TextSet} {report : Report} (hbefore : law.Holds e.catalog before)
    (hsync : (synchronize r e).answer = .ok report)
    (hleft : ∀ t, law.Holds (synchronize r e).state.catalog t → law.Holds later t)
    (hs : (CatalogStore.load later).answer = .ok s) : s = r.legal :=
  ((law.load (hleft _ (holds_after_synchronize hbefore hsync))).of_ok hs).1

/-- After a synchronisation, and for as long as the catalog is left alone and can be read, the
operations of the registry and the grants of the principal decide every request: its tier, whether
it is denied, and whose resources its scope admits. -/
theorem decision_after_synchronize (law : CatalogLaw κ) (r : Registry) (e later : Engine κ)
    (before : TextSet) (report : Report) (hbefore : law.Holds e.catalog before)
    (hsync : (synchronize r e).answer = .ok report)
    (hleft : ∀ s, law.Holds (synchronize r e).state.catalog s → law.Holds later.catalog s)
    (hreadable : ∃ s, (CatalogStore.load later.catalog).answer = .ok s)
    (p : Principal) (entity action : String) :
    let grants := later.grants.grants p
    let all := r.GrantsAll grants entity action
    let own := r.GrantsOwn grants entity action
    (∃ t, (resolveAccess p entity action later).answer = .ok t ∧
      (t = .all ↔ all) ∧ (t = .own ↔ ¬ all ∧ own) ∧ (t = .none ↔ ¬ all ∧ ¬ own)) ∧
    ((authorize p entity action later).answer =
        .error (.error (.accessDenied p entity action)) ↔ ¬ all ∧ ¬ own) ∧
    (all ∨ own → ∃ scope, (authorize p entity action later).answer = .ok scope ∧
      (scope = .unrestricted ↔ all) ∧ (scope = .owned p ↔ ¬ all) ∧
      ∀ owner, scope.admits owner = true ↔ all ∨ owner = p) := by
  intro grants all own
  obtain ⟨s, hs⟩ := hreadable
  obtain rfl := load_after_synchronize hbefore hsync hleft hs
  have hresolve := resolveAccess_of_load p entity action hs
  have hauthorize := authorize_of_resolve hresolve
  have hall : .all ≤ Access.tierAgainst r.legal (later.grants.grants p) entity action ↔ all :=
    r.all_le_tierAgainst_legal
  have hown : .own ≤ Access.tierAgainst r.legal (later.grants.grants p) entity action ↔ all ∨ own :=
    r.own_le_tierAgainst_legal
  rw [hresolve, hauthorize]
  generalize Access.tierAgainst r.legal (later.grants.grants p) entity action = t at hall hown
  clear_value all own
  cases t with
  | none =>
    have hnone : ¬ (all ∨ own) := fun h => absurd (hown.2 h) (by decide)
    obtain ⟨h1, h2⟩ := not_or.1 hnone
    simp [h1, h2, Tier.scopeFor?]
  | own =>
    have h1 : ¬ all := fun h => absurd (hall.2 h) (by decide)
    have h2 : own := (hown.1 (by decide)).resolve_left h1
    simp [h1, h2, Tier.scopeFor?, Scope.admits]
    exact fun _ => eq_comm
  | all =>
    have h1 : all := hall.1 (by decide)
    simp [h1, Tier.scopeFor?, Scope.admits]

/-- A role that was given a wide grant, a stale one and a text that is none, after a synchronisation
of a catalog with a malformed entry. -/
theorem moderator_after_synchronize :
    let r : Registry := ⟨[⟨"post", "delete", true, true⟩]⟩
    let e : Engine MemoryCatalog := new .empty ⟨TextSet.ofList ["post:old", "::"]⟩
    let held : GrantStore :=
      ⟨fun _ => TextSet.ofList ["post:delete:*", "post:old", "::"], fun _ => ∅⟩
    let later : Engine MemoryCatalog := { (synchronize r e).state with grants := held }
    (authorize (.role "moderator") "post" "delete" later).answer = .ok .unrestricted := by
  intro r e held later
  have hsync := (runSync_of_free (e := e) r false MemoryCatalog.law (fun _ _ => id) rfl rfl).1
  obtain ⟨-, -, hpermitted⟩ := decision_after_synchronize MemoryCatalog.law r e later
    e.catalog.entries _ rfl hsync (fun _ hs => hs) ⟨_, rfl⟩ (.role "moderator") "post" "delete"
  have hall : r.GrantsAll (later.grants.grants (.role "moderator")) "post" "delete" :=
    .inr ⟨"post", .inl rfl, .inr ⟨by decide, _, List.mem_singleton_self _, by decide, rfl, rfl,
      rfl, rfl⟩⟩
  obtain ⟨scope, hscope, hunrestricted, -⟩ := hpermitted (.inl hall)
  rw [hscope, hunrestricted.2 hall]

end Engine

end Warrant
