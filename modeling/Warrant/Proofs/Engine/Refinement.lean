import Warrant.Engine
import Warrant.Proofs.Engine.Synchronization

/-!
# Engines on catalogs that answer alike

Where the calls on two kinds of catalogs answer alike (`CatalogsAlike`), so does every operation of
the engines on them: each operation is put together from catalog calls and from what the engines
share.
-/

namespace Warrant

open Call

variable {κ κ' α : Type} {R : κ → κ' → Prop}

namespace Engine

/-- The engines have the same grants, both their guards are held or free as said, and their catalogs
are in relation. -/
structure Like (held : Bool) (R : κ → κ' → Prop) (e : Engine κ) (e' : Engine κ') : Prop where
  grants : e.grants = e'.grants
  guard : e.guard.held = held
  guard' : e'.guard.held = held
  catalogs : R e.catalog e'.catalog

/-! ### What operations are put together from -/

variable {held : Bool}

theorem onCatalog_alike {c : Call κ (Failure StoreError) α} {c' : Call κ' (Failure StoreError) α}
    (h : Simulates R c c') : Simulates (Like held R) (onCatalog c) (onCatalog c') := by
  intro e e' ⟨hgrants, hheld, hheld', hcatalog⟩
  obtain ⟨hanswer, hnext⟩ := h e.catalog e'.catalog hcatalog
  exact ⟨congrArg (Except.mapError _) hanswer, hgrants, hheld, hheld', hnext⟩

theorem changeGrants_alike (f : GrantStore → α × GrantStore) :
    Simulates (Like held R) (changeGrants f : Op κ α) (changeGrants f) := by
  intro e e' ⟨hgrants, hheld, hheld', hcatalog⟩
  refine ⟨congrArg (fun g => Except.ok (f g).1) hgrants, ?_, hheld, hheld', hcatalog⟩
  exact congrArg (fun g => (f g).2) hgrants

theorem changed_alike (f : GrantStore → Bool × GrantStore) (event : Event) :
    Simulates (Like held R)
      ((do
        let changed ← changeGrants f
        if changed then
          Call.emit [event]
        return changed) : Op κ Bool)
      (do
        let changed ← changeGrants f
        if changed then
          Call.emit [event]
        return changed) := by
  refine (changeGrants_alike f).bind fun changed => ?_
  cases changed with
  | true => exact (simulates_emit _ _).bind fun _ => simulates_pure _
  | false => exact simulates_pure _

theorem refuse_alike (error : EngineError) :
    Simulates (Like held R) (refuse error : Op κ α) (refuse error) := simulates_fail _

theorem parse_alike (capability : String) :
    Simulates (Like held R) (parse capability : Op κ Capability) (parse capability) := by
  unfold parse
  split
  · exact simulates_pure _
  · exact refuse_alike _

theorem revoke_alike (p : Principal) (capability : String) :
    Simulates (Like held R) (revoke p capability : Op κ Bool) (revoke p capability) :=
  changed_alike _ _

end Engine

/-! ### Catalogs -/

theorem Delta.announce_alike {d : Delta} :
    Simulates R (announce d : Call κ (Failure StoreError) Unit) (announce d) := by
  obtain ⟨events, hemit⟩ := announce_eq_emit (κ := κ) d
  obtain ⟨events', hemit'⟩ := announce_eq_emit (κ := κ') d
  rw [hemit, hemit']
  exact simulates_emit events events'

variable [CatalogStore κ] [CatalogStore κ']

/-- The calls on two kinds of catalogs answer alike while `R` holds, and keep it. -/
structure CatalogsAlike (R : κ → κ' → Prop) : Prop where
  load : Simulates R (CatalogStore.load : Call κ (Failure StoreError) TextSet) CatalogStore.load
  addAll : ∀ batch, Simulates R (CatalogStore.addAll batch : Call κ (Failure StoreError) Unit)
    (CatalogStore.addAll batch)
  removeAll : ∀ batch, Simulates R
    (CatalogStore.removeAll batch : Call κ (Failure StoreError) Unit)
    (CatalogStore.removeAll batch)
  contains : ∀ capability, Simulates R
    (CatalogStore.contains capability : Call κ (Failure StoreError) Bool)
    (CatalogStore.contains capability)

/-- Two kinds of catalogs that never fail are alike where they hold the same set. -/
theorem CatalogLaw.alike (law : CatalogLaw κ) (law' : CatalogLaw κ')
    (hnever : ∀ k s, ¬ law.Failed k s) (hnever' : ∀ k s, ¬ law'.Failed k s) :
    CatalogsAlike fun k k' => ∃ s, law.Holds k s ∧ law'.Holds k' s where
  load := by
    rintro k k' ⟨s, hk, hk'⟩
    obtain ⟨_, ha, rfl, hs⟩ := (law.load hk).answers fun _ t => hnever t s
    obtain ⟨_, ha', rfl, hs'⟩ := (law'.load hk').answers fun _ t => hnever' t _
    exact ⟨ha.trans ha'.symm, _, hs, hs'⟩
  addAll batch := by
    rintro k k' ⟨s, hk, hk'⟩
    obtain ⟨_, ha, hs⟩ := (law.addAll batch hk).answers fun _ t => hnever t s
    obtain ⟨_, ha', hs'⟩ := (law'.addAll batch hk').answers fun _ t => hnever' t s
    exact ⟨ha.trans ha'.symm, _, hs, hs'⟩
  removeAll batch := by
    rintro k k' ⟨s, hk, hk'⟩
    obtain ⟨_, ha, hs⟩ := (law.removeAll batch hk).answers fun _ t => hnever t s
    obtain ⟨_, ha', hs'⟩ := (law'.removeAll batch hk').answers fun _ t => hnever' t s
    exact ⟨ha.trans ha'.symm, _, hs, hs'⟩
  contains capability := by
    rintro k k' ⟨s, hk, hk'⟩
    obtain ⟨_, ha, rfl, hs⟩ := (law.contains capability hk).answers fun _ t => hnever t s
    obtain ⟨_, ha', rfl, hs'⟩ := (law'.contains capability hk').answers fun _ t => hnever' t s
    exact ⟨ha.trans ha'.symm, _, hs, hs'⟩

namespace Delta

variable {d : Delta} (h : CatalogsAlike R)
include h

theorem addBatch_alike :
    Simulates R (addBatch d : Call κ (Failure StoreError) Unit) (addBatch d) := by
  unfold addBatch
  by_cases hempty : d.toAdd.isEmpty = true
  · rw [if_pos hempty, if_pos hempty]
    exact simulates_pure ()
  · rw [if_neg hempty, if_neg hempty]
    exact (h.addAll d.toAdd).bind fun _ => simulates_emit _ _

theorem removeBatch_alike :
    Simulates R (removeBatch d : Call κ (Failure StoreError) Unit) (removeBatch d) := by
  unfold removeBatch
  by_cases hempty : d.toRemove.isEmpty = true
  · rw [if_pos hempty, if_pos hempty]
    exact simulates_pure ()
  · rw [if_neg hempty, if_neg hempty]
    exact (h.removeAll d.toRemove).bind fun _ => simulates_emit _ _

theorem apply_alike : Simulates R (apply d : Call κ (Failure StoreError) Unit) (apply d) := by
  unfold apply
  refine (announce_alike).bind fun _ => ?_
  exact (addBatch_alike h).bind fun _ => removeBatch_alike h

end Delta

/-! ### Operations -/

namespace Engine

variable {held : Bool} (h : CatalogsAlike R)
include h

theorem resolveAccess_alike (p : Principal) (entity action : String) :
    Simulates (Like held R) (resolveAccess p entity action : Op κ Tier)
      (resolveAccess p entity action) := by
  unfold resolveAccess
  refine (simulates_read fun e e' hlike => by rw [hlike.grants]).bind fun grants => ?_
  refine (onCatalog_alike h.load).bind fun catalog => ?_
  obtain ⟨effective, ignored⟩ := Access.partition grants catalog
  dsimp only
  by_cases hignored : (!ignored.isEmpty) = true
  · rw [if_pos hignored, if_pos hignored]
    refine (simulates_emit _ _).bind fun _ => ?_
    exact (simulates_emit _ _).bind fun _ => simulates_pure _
  · rw [if_neg hignored, if_neg hignored]
    exact (simulates_emit _ _).bind fun _ => simulates_pure _

theorem authorize_alike (p : Principal) (entity action : String) :
    Simulates (Like held R) (authorize p entity action : Op κ Scope)
      (authorize p entity action) := by
  unfold authorize
  refine (resolveAccess_alike h p entity action).bind fun tier => ?_
  cases tier.scopeFor? p with
  | some scope => exact simulates_pure scope
  | none => exact refuse_alike _

theorem assign_alike (p : Principal) (capability : String) :
    Simulates (Like held R) (assign p capability : Op κ Bool) (assign p capability) := by
  unfold assign
  refine (parse_alike capability).bind fun parsed => ?_
  refine (onCatalog_alike (h.contains capability)).bind fun known => ?_
  cases known with
  | true => exact changed_alike _ _
  | false => exact (refuse_alike _).bind fun _ => changed_alike _ _

theorem replace_alike (p : Principal) (capabilities : List String) :
    Simulates (Like held R) (replace p capabilities : Op κ Unit) (replace p capabilities) := by
  unfold replace
  refine (onCatalog_alike h.load).bind fun catalog => ?_
  cases capabilities.mapM (accept catalog) with
  | error e => exact refuse_alike e
  | ok accepted => exact (changeGrants_alike _).bind fun _ => simulates_emit _ _

theorem difference_alike (r : Registry) :
    Simulates (Like held R) (difference r : Op κ Delta) (difference r) := by
  unfold difference
  exact (onCatalog_alike h.load).bind fun _ => simulates_pure _

theorem planSync_alike (r : Registry) :
    Simulates (Like held R) (planSync r : Op κ Delta) (planSync r) := by
  unfold planSync
  exact (simulates_emit _ _).bind fun _ => difference_alike h r

theorem carryOut_alike (r : Registry) (dryRun : Bool) :
    Simulates (Like held R) (carryOut r dryRun : Op κ Report) (carryOut r dryRun) := by
  unfold carryOut
  refine (difference_alike h r).bind fun d => ?_
  cases dryRun with
  | true => exact (simulates_emit _ _).bind fun _ => simulates_pure _
  | false =>
    refine (onCatalog_alike (Delta.apply_alike h)).bind fun _ => ?_
    exact (simulates_emit _ _).bind fun _ => simulates_pure _

theorem runSync_alike (r : Registry) (dryRun : Bool) :
    Simulates (Like false R) (runSync r dryRun : Op κ Report) (runSync r dryRun) := by
  intro e e' ⟨hgrants, hheld, hheld', hcatalog⟩
  have hrun : Simulates (Like true R)
      (Call.emit (skipEvents r) >>= fun _ => (carryOut r dryRun : Op κ Report))
      (Call.emit (skipEvents r) >>= fun _ => carryOut r dryRun) :=
    (simulates_emit _ _).bind fun _ => carryOut_alike h r dryRun
  obtain ⟨hanswer, hgrants', -, -, hcatalog'⟩ :=
    hrun e.entered e'.entered ⟨hgrants, rfl, rfl, hcatalog⟩
  unfold runSync
  rw [Call.bind_of_ok (enter_of_free hheld), Call.bind_of_ok (enter_of_free hheld')]
  exact ⟨hanswer, hgrants', rfl, rfl, hcatalog'⟩

end Engine

end Warrant
