import Mathlib.Data.List.Basic
import Mathlib.Data.List.Induction
import Warrant.Config

/-!
# Which declaration counts

A configuration that was not validated may declare a name several times. The last declaration is
the one that counts (`IsLast`): the store of a configuration holds exactly what the last
declaration of each name says.
-/

namespace Warrant

section

variable {α δ : Type} {key : δ → α} {a : α} {d x : δ} {ds : List δ}

/-- The last of some declarations that has a key. -/
def IsLast (key : δ → α) (a : α) (ds : List δ) (d : δ) : Prop :=
  ∃ before later, ds = before ++ d :: later ∧ key d = a ∧ ∀ d' ∈ later, key d' ≠ a

theorem IsLast.mem (h : IsLast key a ds d) : d ∈ ds := by
  obtain ⟨before, later, rfl, -, -⟩ := h
  exact List.mem_append_right _ List.mem_cons_self

theorem IsLast.key_eq (h : IsLast key a ds d) : key d = a := by
  obtain ⟨_, _, -, hkey, -⟩ := h
  exact hkey

theorem isLast_concat :
    IsLast key a (ds ++ [x]) d ↔ (key x = a ∧ d = x) ∨ key x ≠ a ∧ IsLast key a ds d := by
  constructor
  · rintro ⟨before, later, hds, hkey, hlater⟩
    rcases List.eq_nil_or_concat' later with rfl | ⟨later, x', rfl⟩
    · obtain ⟨-, hx⟩ := List.append_inj' hds rfl
      obtain rfl : x = d := (List.cons.inj hx).1
      exact .inl ⟨hkey, rfl⟩
    · rw [← List.cons_append, ← List.append_assoc] at hds
      obtain ⟨rfl, hx⟩ := List.append_inj' hds rfl
      obtain rfl : x = x' := (List.cons.inj hx).1
      refine .inr ⟨hlater x (List.mem_append_right _ List.mem_cons_self), ?_⟩
      exact ⟨before, later, rfl, hkey, fun d' hd' => hlater d' (List.mem_append_left _ hd')⟩
  · rintro (⟨hkey, rfl⟩ | ⟨hx, before, later, rfl, hkey, hlater⟩)
    · exact ⟨ds, [], rfl, hkey, fun _ h => absurd h List.not_mem_nil⟩
    · refine ⟨before, later ++ [x], by rw [List.append_assoc, List.cons_append], hkey, ?_⟩
      intro d' hd'
      rcases List.mem_append.1 hd' with hd' | hd'
      · exact hlater d' hd'
      · rw [List.mem_singleton.1 hd']
        exact hx

theorem isLast_iff_of_nodup (h : (ds.map key).Nodup) : IsLast key a ds d ↔ d ∈ ds ∧ key d = a := by
  refine ⟨fun hd => ⟨hd.mem, hd.key_eq⟩, fun ⟨hd, hkey⟩ => ?_⟩
  obtain ⟨before, later, rfl⟩ := List.append_of_mem hd
  refine ⟨before, later, rfl, hkey, fun d' hd' he => ?_⟩
  rw [List.map_append, List.map_cons] at h
  refine (List.nodup_cons.1 (List.nodup_append.1 h).2.1).1 ?_
  rw [hkey, ← he]
  exact List.mem_map_of_mem hd'

/-- Where each declaration sets the value at its key, the last one of a key says what is there, and
without one it is as before. -/
theorem mem_foldl_update {σ : Type} [DecidableEq α] (view : σ → α → TextSet) {step : σ → δ → σ}
    {value : δ → TextSet}
    (hstep : ∀ t d, view (step t d) = update (view t) (key d) (value d)) {t : σ} {s : String} :
    s ∈ view (ds.foldl step t) a ↔
      (∃ d, IsLast key a ds d ∧ s ∈ value d) ∨ (∀ d ∈ ds, key d ≠ a) ∧ s ∈ view t a := by
  induction ds using List.reverseRecOn with
  | nil =>
    have hnone : ¬ ∃ d, IsLast key a [] d ∧ s ∈ value d := fun ⟨d, hd, _⟩ =>
      List.not_mem_nil hd.mem
    simp [hnone]
  | append_singleton ds x ih =>
    rw [List.foldl_append, List.foldl_cons, List.foldl_nil, hstep]
    simp only [isLast_concat, List.forall_mem_append, List.forall_mem_singleton]
    by_cases hx : key x = a
    · subst hx
      simp
    · rw [update_of_ne _ _ (Ne.symm hx), ih]
      simp [hx]

end

/-! ### The store of a configuration -/

namespace GrantStore

variable {config : Config} {p : Principal} {user s : String}

theorem mem_direct_ofConfig :
    s ∈ (ofConfig config).direct p ↔
      (∃ d, IsLast (.role ·.id) p config.roles d ∧ s ∈ d.grants) ∨
        ∃ d, IsLast (.user ·.id) p config.users d ∧ s ∈ d.grants := by
  unfold ofConfig
  rw [mem_foldl_update GrantStore.direct fun _ _ => rfl]
  rw [mem_foldl_update GrantStore.direct fun _ _ => rfl]
  simp only [TextSet.mem_ofList]
  have hempty : ¬ s ∈ GrantStore.empty.direct p := TextSet.not_mem_empty s
  constructor
  · rintro (h | ⟨-, h | ⟨-, h⟩⟩)
    · exact .inr h
    · exact .inl h
    · exact absurd h hempty
  · rintro (⟨d, hd, hs⟩ | h)
    · -- What a role holds is not set again where the users are declared.
      refine .inr ⟨fun u _ hu => ?_, .inl ⟨d, hd, hs⟩⟩
      rw [← hd.key_eq] at hu
      cases hu
    · exact .inl h

theorem mem_rolesOf_ofConfig :
    s ∈ (ofConfig config).rolesOf user ↔
      ∃ d, IsLast UserDecl.id user config.users d ∧ s ∈ d.roles := by
  have hroles : ∀ (roles : List RoleDecl) (g : GrantStore),
      (roles.foldl (fun g r =>
        { g with direct := update g.direct (.role r.id) (TextSet.ofList r.grants) }) g).rolesOf =
        g.rolesOf := fun roles g => by
    induction roles generalizing g with
    | nil => rfl
    | cons r rest ih => exact ih _
  unfold ofConfig
  rw [mem_foldl_update GrantStore.rolesOf fun _ _ => rfl, hroles]
  have hempty : ¬ s ∈ GrantStore.empty.rolesOf user := TextSet.not_mem_empty s
  simp [hempty]

end GrantStore

end Warrant
