import Mathlib.Data.List.Induction
import Warrant.Proofs.Config.Soundness
import Warrant.Proofs.GrantStore.Table

/-!
# A configuration, declared and administered

What a configuration declares can also be given out call by call: the grants of each role and each
user, read as capabilities, replace what the principal holds, and each membership is added
(`Config.administration`). For a configuration that was accepted this comes to the declared store,
in whatever order the calls are made (`administered_as_declared`): no two of them replace the grants
of one principal, and what is read as a capability is written as it was declared.
-/

namespace Warrant

open GrantStore (Change)

namespace Config

variable {config : Config} {p : Principal} {user role text : String} {grants : List String}
  {cs : List Capability} {ch : Change} {changes order : List Change}

/-- The change that gives a principal what some texts are read as. -/
def endow (p : Principal) (grants : List String) : Except GrammarError Change := do
  return .replace p (← grants.mapM Capability.parse)

def joins (u : UserDecl) : List Change := u.roles.map (.addRole u.id)

/-- The calls that give out what a configuration declares: one for each role, one for each user, and
one for each membership. -/
def administration (config : Config) : Except GrammarError (List Change) := do
  let roles ← config.roles.mapM fun r => endow (.role r.id) r.grants
  let users ← config.users.mapM fun u => endow (.user u.id) u.grants
  return roles ++ users ++ config.users.flatMap joins

/-! ### What the calls are -/

theorem mapM_parse_eq_ok_iff :
    grants.mapM Capability.parse = .ok cs ↔ grants = cs.map Capability.render := by
  constructor
  · intro h
    induction grants generalizing cs with
    | nil =>
      cases h
      rfl
    | cons grant rest ih =>
      rw [List.mapM_cons] at h
      obtain ⟨c, hc, hrest⟩ := exists_of_bind_ok h
      obtain ⟨ds, hds, hcs⟩ := exists_of_bind_ok hrest
      cases hcs
      rw [List.map_cons, ← ih hds, Capability.render_of_parse hc]
  · rintro rfl
    induction cs with
    | nil => rfl
    | cons c cs ih =>
      rw [List.map_cons, List.mapM_cons, Capability.parse_render, ih]
      rfl

theorem endow_eq_ok_iff :
    endow p grants = .ok ch ↔
      ∃ cs, grants = cs.map Capability.render ∧ ch = .replace p cs := by
  constructor
  · intro h
    obtain ⟨cs, hcs, hch⟩ := exists_of_bind_ok h
    cases hch
    exact ⟨cs, mapM_parse_eq_ok_iff.1 hcs, rfl⟩
  · rintro ⟨cs, hgrants, rfl⟩
    unfold endow
    rw [mapM_parse_eq_ok_iff.2 hgrants]
    rfl

theorem exists_of_endow (h : endow p grants = .ok ch) (htext : text ∈ grants) :
    ∃ cs : List Capability, grants = cs.map Capability.render ∧ ∃ c ∈ cs, text = c.render := by
  obtain ⟨cs, hcs, -⟩ := endow_eq_ok_iff.1 h
  rw [hcs] at htext
  obtain ⟨c, hc, rfl⟩ := List.mem_map.1 htext
  exact ⟨cs, hcs, c, hc, rfl⟩

/-- The grants that a declaration lists for the principal are the written forms of these
capabilities. -/
def Endows (config : Config) (p : Principal) (cs : List Capability) : Prop :=
  (∃ r ∈ config.roles, p = .role r.id ∧ r.grants = cs.map Capability.render) ∨
    ∃ u ∈ config.users, p = .user u.id ∧ u.grants = cs.map Capability.render

/-- The calls, whatever their order, give out what the configuration declares and nothing else. -/
structure SetsUp (config : Config) (changes : List Change) : Prop where
  only : ∀ ch ∈ changes, (∃ p cs, ch = .replace p cs) ∨ ∃ user role, ch = .addRole user role
  replaces : ∀ p cs, .replace p cs ∈ changes ↔ config.Endows p cs
  joins : ∀ user role,
    .addRole user role ∈ changes ↔ ∃ u ∈ config.users, u.id = user ∧ role ∈ u.roles

theorem SetsUp.perm (h : config.SetsUp changes) (hperm : order.Perm changes) :
    config.SetsUp order where
  only ch hch := h.only ch (hperm.mem_iff.1 hch)
  replaces p cs := hperm.mem_iff.trans (h.replaces p cs)
  joins user role := hperm.mem_iff.trans (h.joins user role)

theorem mem_joins {u : UserDecl} : ch ∈ joins u ↔ ∃ role ∈ u.roles, ch = .addRole u.id role := by
  unfold joins
  rw [List.mem_map]
  exact exists_congr fun role => and_congr_right fun _ => eq_comm

theorem setsUp_of_administration (h : config.administration = .ok changes) :
    config.SetsUp changes := by
  obtain ⟨roles, hroles, h⟩ := exists_of_bind_ok h
  obtain ⟨users, husers, h⟩ := exists_of_bind_ok h
  cases h
  have hmem : ∀ ch, ch ∈ roles ++ users ++ config.users.flatMap joins ↔
      ((∃ r ∈ config.roles, ∃ cs, r.grants = cs.map Capability.render ∧
        ch = .replace (.role r.id) cs) ∨
      ∃ u ∈ config.users, ∃ cs, u.grants = cs.map Capability.render ∧
        ch = .replace (.user u.id) cs) ∨
      ∃ u ∈ config.users, ∃ role ∈ u.roles, ch = .addRole u.id role := by
    intro ch
    simp only [List.mem_append, List.mem_flatMap, mem_of_mapM_ok hroles, mem_of_mapM_ok husers,
      endow_eq_ok_iff, mem_joins]
  refine ⟨fun ch hch => ?_, fun p cs => ?_, fun user role => ?_⟩
  · rcases (hmem ch).1 hch with (⟨r, -, cs, -, rfl⟩ | ⟨u, -, cs, -, rfl⟩) | ⟨u, -, role, -, rfl⟩
    · exact .inl ⟨_, cs, rfl⟩
    · exact .inl ⟨_, cs, rfl⟩
    · exact .inr ⟨_, role, rfl⟩
  · rw [hmem]
    constructor
    · rintro ((⟨r, hr, cs', hgrants, heq⟩ | ⟨u, hu, cs', hgrants, heq⟩) | ⟨u, -, role, -, heq⟩)
      · cases heq
        exact .inl ⟨r, hr, rfl, hgrants⟩
      · cases heq
        exact .inr ⟨u, hu, rfl, hgrants⟩
      · cases heq
    · rintro (⟨r, hr, rfl, hgrants⟩ | ⟨u, hu, rfl, hgrants⟩)
      · exact .inl (.inl ⟨r, hr, cs, hgrants, rfl⟩)
      · exact .inl (.inr ⟨u, hu, cs, hgrants, rfl⟩)
  · rw [hmem]
    constructor
    · rintro ((⟨r, -, cs, -, heq⟩ | ⟨u, -, cs, -, heq⟩) | ⟨u, hu, role', hrole, heq⟩)
      · cases heq
      · cases heq
      · cases heq
        exact ⟨u, hu, rfl, hrole⟩
    · rintro ⟨u, hu, rfl, hrole⟩
      exact .inr ⟨u, hu, role, hrole, rfl⟩

/-! ### Where the configuration was accepted -/

section

variable (hvalid : config.validate = .ok ())

include hvalid

theorem exists_administration : ∃ changes, config.administration = .ok changes := by
  obtain ⟨-, -, -, hroles, husers⟩ := validate_eq_ok_iff.1 hvalid
  have hendow : ∀ p grants, (∀ g ∈ grants, checkGrant p g = .ok ()) →
      ∃ ch, endow p grants = .ok ch := by
    intro p grants hgrants
    obtain ⟨cs, hcs⟩ := exists_of_mapM_ok.2 fun g hg =>
      (checkGrant_eq_ok_iff.1 (hgrants g hg)).imp fun _ => And.left
    exact ⟨_, endow_eq_ok_iff.2 ⟨cs, mapM_parse_eq_ok_iff.1 hcs, rfl⟩⟩
  obtain ⟨roles, hroles⟩ := exists_of_mapM_ok.2 fun (r : RoleDecl) hr =>
    hendow (.role r.id) r.grants (hroles r hr)
  obtain ⟨users, husers⟩ := exists_of_mapM_ok.2 fun (u : UserDecl) hu =>
    hendow (.user u.id) u.grants (husers u hu).1
  refine ⟨roles ++ users ++ config.users.flatMap joins, ?_⟩
  unfold administration
  rw [hroles, husers]
  rfl

/-- No principal is declared twice, so it is given the same capabilities each time. -/
theorem Endows.unique {ds : List Capability} (hcs : config.Endows p cs)
    (hds : config.Endows p ds) : cs = ds := by
  obtain ⟨-, hroles, husers, -, -⟩ := validate_eq_ok_iff.1 hvalid
  have hrender : Function.Injective Capability.render := fun _ _ => Capability.render_inj.1
  refine List.map_injective_iff.2 hrender ?_
  rcases hcs with ⟨r, hr, rfl, hcs⟩ | ⟨u, hu, rfl, hcs⟩
  · rcases hds with ⟨r', hr', hid, hds⟩ | ⟨_, _, hid, _⟩
    · have hsame : r = r' := List.inj_on_of_nodup_map (checkDistinct_eq_ok_iff.1 hroles) hr hr'
        (Principal.role.inj hid)
      rw [← hcs, ← hds, hsame]
    · cases hid
  · rcases hds with ⟨_, _, hid, _⟩ | ⟨u', hu', hid, hds⟩
    · cases hid
    · have hsame : u = u' := List.inj_on_of_nodup_map (checkDistinct_eq_ok_iff.1 husers) hu hu'
        (Principal.user.inj hid)
      rw [← hcs, ← hds, hsame]

theorem declares_iff_endows {s : String} :
    config.Declares p s ↔ ∃ cs, config.Endows p cs ∧ ∃ c ∈ cs, s = c.render := by
  obtain ⟨changes, hchanges⟩ := exists_administration hvalid
  obtain ⟨_, hroles, h⟩ := exists_of_bind_ok hchanges
  obtain ⟨_, husers, -⟩ := exists_of_bind_ok h
  constructor
  · rintro (⟨r, hr, rfl, hs⟩ | ⟨u, hu, rfl, hs⟩)
    · obtain ⟨_, hch⟩ := exists_of_mapM_ok.1 ⟨_, hroles⟩ r hr
      obtain ⟨cs, hcs, hs⟩ := exists_of_endow hch hs
      exact ⟨cs, .inl ⟨r, hr, rfl, hcs⟩, hs⟩
    · obtain ⟨_, hch⟩ := exists_of_mapM_ok.1 ⟨_, husers⟩ u hu
      obtain ⟨cs, hcs, hs⟩ := exists_of_endow hch hs
      exact ⟨cs, .inr ⟨u, hu, rfl, hcs⟩, hs⟩
  · rintro ⟨cs, ⟨r, hr, rfl, hcs⟩ | ⟨u, hu, rfl, hcs⟩, c, hc, rfl⟩
    · exact .inl ⟨r, hr, rfl, hcs ▸ List.mem_map_of_mem hc⟩
    · exact .inr ⟨u, hu, rfl, hcs ▸ List.mem_map_of_mem hc⟩

end

end Config

namespace GrantStore

variable {config : Config} {p : Principal} {user role s text : String} {changes : List Change}

/-! ### What the calls lead to -/

/-- Where each call replaces grants or adds a membership, and no two replace the grants of one
principal by different ones, a principal holds what it was given. -/
theorem mem_direct_of_replaces
    (honly : ∀ ch ∈ changes, (∃ p cs, ch = .replace p cs) ∨ ∃ user role, ch = .addRole user role)
    (hunique : ∀ p cs ds, .replace p cs ∈ changes → .replace p ds ∈ changes → cs = ds) :
    s ∈ (changes.foldl after empty).direct p ↔
      ∃ cs, .replace p cs ∈ changes ∧ ∃ c ∈ cs, s = c.render := by
  induction changes using List.reverseRecOn with
  | nil =>
    refine iff_of_false (TextSet.not_mem_empty s) ?_
    rintro ⟨cs, hcs, -⟩
    cases hcs
  | append_singleton changes ch ih =>
    have hlast : ch ∈ changes ++ [ch] := List.mem_append_right _ (List.mem_singleton_self ch)
    have hbefore : ∀ {ch'}, ch' ∈ changes → ch' ∈ changes ++ [ch] := List.mem_append_left _
    have ih := ih (fun ch' h => honly ch' (hbefore h)) fun p cs ds hcs hds =>
      hunique p cs ds (hbefore hcs) (hbefore hds)
    rw [List.foldl_append, List.foldl_cons, List.foldl_nil]
    simp only [List.mem_append, List.mem_singleton]
    rcases honly ch hlast with ⟨q, ds, rfl⟩ | ⟨user, role, rfl⟩
    · rw [mem_direct_replace]
      by_cases hp : p = q
      · subst hp
        -- Whatever was given before is the same.
        have hgiven : ∀ cs, .replace p cs ∈ changes ∨ Change.replace p cs = .replace p ds →
            cs = ds := by
          rintro cs (hcs | hcs)
          · exact hunique p cs ds (hbefore hcs) hlast
          · exact (Change.replace.inj hcs).2
        constructor
        · rintro (⟨-, hs⟩ | ⟨hne, -⟩)
          · exact ⟨ds, .inr rfl, hs⟩
          · exact absurd rfl hne
        · rintro ⟨cs, hcs, hs⟩
          exact .inl ⟨rfl, hgiven cs hcs ▸ hs⟩
      · rw [or_iff_right fun h => hp h.1, and_iff_right hp, ih]
        refine exists_congr fun cs => and_congr_left fun _ => (or_iff_left fun heq => ?_).symm
        exact hp (Change.replace.inj heq).1
    · refine Iff.trans ih (exists_congr fun cs => and_congr_left fun _ => ?_)
      exact (or_iff_left nofun).symm

theorem mem_rolesOf_of_addRoles
    (honly : ∀ ch ∈ changes, (∃ p cs, ch = .replace p cs) ∨ ∃ user role, ch = .addRole user role) :
    role ∈ (changes.foldl after empty).rolesOf user ↔ .addRole user role ∈ changes := by
  induction changes using List.reverseRecOn with
  | nil => exact iff_of_false (TextSet.not_mem_empty role) List.not_mem_nil
  | append_singleton changes ch ih =>
    have hlast : ch ∈ changes ++ [ch] := List.mem_append_right _ (List.mem_singleton_self ch)
    have ih := ih fun ch' h => honly ch' (List.mem_append_left _ h)
    rw [List.foldl_append, List.foldl_cons, List.foldl_nil, List.mem_append, List.mem_singleton]
    rcases honly ch hlast with ⟨q, ds, rfl⟩ | ⟨u, r, rfl⟩
    · rw [or_iff_left nofun]
      exact ih
    · rw [mem_rolesOf_addRole, ih, Change.addRole.injEq, or_comm]

/-- Whatever the order of the calls, they lead to the store of the configuration. -/
theorem foldl_after_of_setsUp (hvalid : config.validate = .ok ()) (h : config.SetsUp changes) :
    changes.foldl after empty = ofConfig config := by
  obtain ⟨-, hroles, husers, -, -⟩ := Config.validate_eq_ok_iff.1 hvalid
  have hroles := Config.checkDistinct_eq_ok_iff.1 hroles
  have husers := Config.checkDistinct_eq_ok_iff.1 husers
  refine eq_of_direct_of_rolesOf (fun p => ?_) fun user => ?_
  · ext s
    rw [Config.mem_direct_iff_declares hroles husers, Config.declares_iff_endows hvalid,
      mem_direct_of_replaces h.only]
    · simp only [h.replaces]
    · intro p cs ds hcs hds
      exact Config.Endows.unique hvalid ((h.replaces p cs).1 hcs) ((h.replaces p ds).1 hds)
  · ext role
    rw [mem_rolesOf_of_addRoles h.only, h.joins, mem_rolesOf_ofConfig]
    simp only [isLast_iff_of_nodup husers, and_assoc]

/-- The calls that give out what an accepted configuration declares never fail, and in whatever
order they are made, they lead to a store in which everybody holds what the configuration says, and
which answers all calls from then on as the declared one. So do two maps, in one of which the users
without roles are missing. -/
theorem administered_as_declared (h : Config.parse text = .ok config) :
    ∃ changes, config.administration = .ok changes ∧ ∀ order : List Change, order.Perm changes →
      let built := order.foldl after empty
      let declared := ofConfig config
      (∀ p, built.direct p = declared.direct p ∧ built.grants p = declared.grants p) ∧
      (∀ user, built.rolesOf user = declared.rolesOf user) ∧
      ∀ uses, built.answers uses = declared.answers uses ∧
        (order.foldl GrantTable.after .empty).answers uses = declared.answers uses ∧
        (GrantTable.ofConfig config).answers uses = declared.answers uses := by
  have hvalid := Config.validate_of_parse h
  obtain ⟨changes, hchanges⟩ := Config.exists_administration hvalid
  refine ⟨changes, hchanges, fun order hperm => ?_⟩
  have hbuilt : order.foldl after empty = ofConfig config :=
    foldl_after_of_setsUp hvalid ((Config.setsUp_of_administration hchanges).perm hperm)
  have htable : (order.foldl GrantTable.after .empty).shown = ofConfig config :=
    (GrantTable.foldl_after_shown _ order).trans hbuilt
  intro built declared
  rw [show built = declared from hbuilt]
  refine ⟨fun p => ⟨rfl, rfl⟩, fun user => rfl, fun uses => ⟨rfl, ?_, ?_⟩⟩
  · rw [GrantTable.answers_shown, htable]
  · rw [GrantTable.answers_shown, GrantTable.ofConfig_shown]

/-- A user that is declared before its role, which it names twice, and a user without roles, who is
missing in the map that the calls lead to. The memberships are added first and the roles set up
last. -/
theorem administered_in_reverse :
    let text := "[[users]]\nid = \"ann\"\nroles = [\"editor\", \"editor\"]\n" ++
      "grants = [\"post:edit\", \"post:edit\"]\n\n[[users]]\nid = \"bob\"\n\n" ++
      "[[roles]]\nid = \"editor\"\ngrants = [\"post:*\"]\n"
    let config : Config := ⟨[], [⟨"editor", ["post:*"]⟩],
      [⟨"ann", ["editor", "editor"], ["post:edit", "post:edit"]⟩, ⟨"bob", [], []⟩]⟩
    let post (action : String) (h : IsSegment action) : Capability :=
      ⟨"post", action, false, by decide, h⟩
    let edit := post "edit" (by decide)
    let order : List Change := [.addRole "ann" "editor", .addRole "ann" "editor",
      .replace (.user "bob") [], .replace (.user "ann") [edit, edit],
      .replace (.role "editor") [post wildcard (by decide)]]
    Config.parse text = .ok config ∧ config.administration = .ok order.reverse ∧
      (order.foldl after empty).grants (.user "ann") = (ofConfig config).grants (.user "ann") ∧
      (order.foldl GrantTable.after .empty).memberships "bob" = none ∧
      (GrantTable.ofConfig config).memberships "bob" = some ∅ ∧
      (order.foldl GrantTable.after .empty).answers [.rolesOf "bob", .grants (.user "ann")] =
        [.set ∅, .set (TextSet.ofList ["post:*", "post:edit"])] := by
  intro text config post edit order
  have hparse : Config.parse text = .ok config := by decide +kernel
  have hadministration : config.administration = .ok order.reverse := rfl
  obtain ⟨changes, hchanges, hall⟩ := administered_as_declared hparse
  cases hadministration.symm.trans hchanges
  obtain ⟨hgrants, -, hanswers⟩ := hall order (List.reverse_perm order).symm
  obtain ⟨-, htable, -⟩ := hanswers [.rolesOf "bob", .grants (.user "ann")]
  refine ⟨hparse, hadministration, (hgrants (.user "ann")).2, rfl, by decide +kernel, ?_⟩
  rw [htable]
  decide +kernel

end GrantStore

end Warrant
