import Warrant.Engine.Request
import Warrant.Proofs.Capability.Grammar
import Warrant.Proofs.Engine.Convergence
import Warrant.Proofs.GrantStore.Change

/-!
# What happens to the grants of an engine

An engine is sent requests, each under some faults of its catalog, and its grant store may also be
changed from beside it: these are the acts that a run is made of. What a request does to the grants
is said once (`perform_grants`): nothing at all, or the one change that it asks for, and then the
catalog lists every grant that the change gives. A request that fails does nothing to them.
-/

namespace Warrant

/-- The catalog lists a capability, be it asked about this one or read as a whole. -/
def CatalogStore.Lists {κ : Type} [CatalogStore κ] (k : κ) (capability : String) : Prop :=
  (CatalogStore.contains capability k).answer = .ok true ∨
    ∃ s, (CatalogStore.load k).answer = .ok s ∧ capability ∈ s

theorem CatalogLaw.mem_of_lists {κ : Type} [CatalogStore κ] (law : CatalogLaw κ) {k : κ}
    {s : TextSet} {capability : String} (h : law.Holds k s)
    (hlists : CatalogStore.Lists k capability) : capability ∈ s := by
  rcases hlists with hknown | ⟨t, ht, hmem⟩
  · exact of_decide_eq_true ((law.contains capability h).of_ok hknown).1.symm
  · rw [← ((law.load h).of_ok ht).1]
    exact hmem

namespace Engine

open GrantStore (Change)

variable {κ α : Type}

/-! ### What requests are put together from -/

open Call

theorem keeps_onCatalog (c : Call κ (Failure StoreError) α) :
    Keeps Engine.grants (onCatalog c) := fun _ => rfl

theorem keeps_refuse (error : EngineError) : Keeps Engine.grants (refuse error : Op κ α) :=
  keeps_fail _

theorem enter_grants : Keeps Engine.grants (enter : Op κ Unit) := by
  intro e
  unfold enter
  split
  · rfl
  · rfl

theorem parse_ends (text : String) (e : Engine κ) :
    (parse text : Op κ Capability).Ends e (fun c e' => text = c.render ∧ e' = e)
      (fun _ e' => e' = e) := by
  unfold parse
  split
  · rename_i c hc
    exact ⟨Capability.parse_eq_ok_iff.1 hc, rfl⟩
  · exact rfl

theorem changed_ends (f : GrantStore → Bool × GrantStore) (event : Event) (e : Engine κ) :
    ((do
        let changed ← changeGrants f
        if changed then
          Call.emit [event]
        return changed) : Op κ Bool).Ends e
      (fun _ e' => e' = { e with grants := (f e.grants).2 }) (fun _ _ => False) := by
  have hchange : (changeGrants f : Op κ Bool).Ends e
      (fun _ e' => e' = { e with grants := (f e.grants).2 }) (fun _ _ => False) := rfl
  refine hchange.bind fun changed e' he => ?_
  cases changed with
  | true => exact he
  | false => exact he

theorem revoke_ends (p : Principal) (grant : String) (e : Engine κ) :
    (revoke p grant).Ends e
      (fun _ e' => e' = { e with grants := e.grants.after (.revoke p grant) })
      (fun _ _ => False) :=
  changed_ends _ _ e

theorem render_of_accept {catalog : TextSet} {text : String} {c : Capability}
    (h : accept catalog text = .ok c) : text = c.render ∧ text ∈ catalog := by
  unfold accept at h
  split at h
  · cases h
  · rename_i c' hc'
    split at h
    · rename_i hlisted
      cases h
      exact ⟨Capability.parse_eq_ok_iff.1 hc', hlisted⟩
    · cases h

theorem render_of_accepted {catalog : TextSet} {texts : List String} {cs : List Capability}
    (h : texts.mapM (accept catalog) = .ok cs) :
    texts = cs.map Capability.render ∧ ∀ text ∈ texts, text ∈ catalog := by
  induction texts generalizing cs with
  | nil =>
    cases h
    exact ⟨rfl, fun _ => nofun⟩
  | cons text rest ih =>
    rw [List.mapM_cons] at h
    cases hhead : accept catalog text with
    | error error => rw [hhead] at h; cases h
    | ok c =>
      cases hrest : rest.mapM (accept catalog) with
      | error error => rw [hhead, hrest] at h; cases h
      | ok ds =>
        rw [hhead, hrest] at h
        cases h
        obtain ⟨hds, hmem⟩ := ih hrest
        obtain ⟨htext, hlisted⟩ := render_of_accept hhead
        exact ⟨by rw [List.map_cons, ← hds, ← htext], List.forall_mem_cons.2 ⟨hlisted, hmem⟩⟩

variable [CatalogStore κ]

/-! ### Requests that leave the grants alone -/

theorem resolveAccess_grants (p : Principal) (entity action : String) :
    Keeps Engine.grants (resolveAccess p entity action : Op κ Tier) := by
  refine (keeps_read _).bind fun grants => (keeps_onCatalog _).bind fun catalog => ?_
  dsimp only
  split
  · exact (keeps_emit _).bind fun _ => (keeps_emit _).bind fun _ => keeps_pure _
  · exact (keeps_emit _).bind fun _ => keeps_pure _

theorem authorize_grants (p : Principal) (entity action : String) :
    Keeps Engine.grants (authorize p entity action : Op κ Scope) := by
  refine (resolveAccess_grants p entity action).bind fun tier => ?_
  split
  · exact keeps_pure _
  · exact keeps_refuse _

theorem difference_grants (r : Registry) : Keeps Engine.grants (difference r : Op κ Delta) :=
  (keeps_onCatalog _).bind fun _ => keeps_pure _

theorem planSync_grants (r : Registry) : Keeps Engine.grants (planSync r : Op κ Delta) :=
  (keeps_emit _).bind fun _ => difference_grants r

theorem carryOut_grants (r : Registry) (dryRun : Bool) :
    Keeps Engine.grants (carryOut r dryRun : Op κ Report) := by
  refine (difference_grants r).bind fun delta => ?_
  cases dryRun with
  | true => exact (keeps_emit _).bind fun _ => keeps_pure _
  | false =>
    exact (keeps_onCatalog _).bind fun _ => (keeps_emit _).bind fun _ => keeps_pure _

theorem runSync_grants (r : Registry) (dryRun : Bool) :
    Keeps Engine.grants (runSync r dryRun : Op κ Report) := by
  have hcarry : Keeps Engine.grants
      (Call.emit (skipEvents r) >>= fun _ => (carryOut r dryRun : Op κ Report)) :=
    (keeps_emit _).bind fun _ => carryOut_grants r dryRun
  -- To give the guard back is to touch nothing else.
  exact enter_grants.bind fun _ e => hcarry e

/-! ### Requests that change the grants -/

theorem assign_ends (p : Principal) (capability : String) (e : Engine κ) :
    (assign p capability).Ends e
      (fun _ e' => ∃ c, capability = c.render ∧ CatalogStore.Lists e.catalog capability ∧
        e'.grants = e.grants.after (.assign p c))
      (fun _ e' => e'.grants = e.grants) := by
  unfold assign
  refine Ends.bind ((parse_ends capability e).mono (fun _ _ => id) ?_) ?_
  · rintro _ _ rfl
    rfl
  rintro c e ⟨hc, rfl⟩
  refine Ends.bind ((onCatalog_ends (ends_self _ _)).mono (fun _ _ => id) ?_) ?_
  · rintro _ _ ⟨_, _, -, -, rfl⟩
    rfl
  rintro known _ ⟨k, ⟨hknown, -⟩, rfl⟩
  cases known with
  | false => exact rfl
  | true =>
    refine (changed_ends _ _ _).mono (fun _ e' he => ?_) fun _ _ => False.elim
    exact ⟨c, hc, .inl hknown, congrArg Engine.grants he⟩

theorem replace_ends (p : Principal) (texts : List String) (e : Engine κ) :
    (replace p texts).Ends e
      (fun _ e' => ∃ cs, texts = cs.map Capability.render ∧
        (∀ text ∈ texts, CatalogStore.Lists e.catalog text) ∧
        e'.grants = e.grants.after (.replace p cs))
      (fun _ e' => e'.grants = e.grants) := by
  unfold replace
  refine Ends.bind ((onCatalog_ends (ends_self _ _)).mono (fun _ _ => id) ?_) ?_
  · rintro _ _ ⟨_, _, -, -, rfl⟩
    rfl
  rintro catalog _ ⟨k, ⟨hload, -⟩, rfl⟩
  split
  · exact rfl
  · rename_i cs hcs
    obtain ⟨htexts, hmem⟩ := render_of_accepted hcs
    exact ⟨cs, htexts, fun text h => .inr ⟨catalog, hload, hmem text h⟩, rfl⟩

/-! ### What a request does to the grants -/

/-- The change of the grant store that a request asks for, if what it names are capabilities. -/
inductive Request.Asks : Request → Change → Prop
  | assign (p : Principal) (c : Capability) : Asks (.assign p c.render) (.assign p c)
  | revoke (p : Principal) (grant : String) : Asks (.revoke p grant) (.revoke p grant)
  | replace (p : Principal) (cs : List Capability) :
    Asks (.replace p (cs.map Capability.render)) (.replace p cs)

/-- A request that answers leaves the grants as they are, or makes the change that it asks for, and
the catalog lists what this gives. One that fails leaves them as they are. -/
theorem perform_grants (q : Request) (e : Engine κ) :
    q.perform.Ends e
      (fun _ e' => e'.grants = e.grants ∨ ∃ ch, q.Asks ch ∧ e'.grants = e.grants.after ch ∧
        ∀ p grant, ch.Gives p grant → CatalogStore.Lists e.catalog grant)
      (fun _ e' => e'.grants = e.grants) := by
  have hkeeps : ∀ {β : Type} {c : Op κ β} {f : β → Reply} {P : Reply → Engine κ → Prop},
      Keeps Engine.grants c → (c >>= fun b => pure (f b)).Ends e
        (fun reply e' => e'.grants = e.grants ∨ P reply e') (fun _ e' => e'.grants = e.grants) :=
    fun h => (h.ends e).bind fun _ _ => .inl
  cases q with
  | load => exact hkeeps (keeps_onCatalog _)
  | contains capability => exact hkeeps (keeps_onCatalog _)
  | addAll batch => exact hkeeps (keeps_onCatalog _)
  | removeAll batch => exact hkeeps (keeps_onCatalog _)
  | resolveAccess p entity action => exact hkeeps (resolveAccess_grants p entity action)
  | authorize p entity action => exact hkeeps (authorize_grants p entity action)
  | planSync r => exact hkeeps (planSync_grants r)
  | previewSync r => exact hkeeps (runSync_grants r true)
  | synchronize r => exact hkeeps (runSync_grants r false)
  | assign p capability =>
    refine (assign_ends p capability e).bind fun _ e' => ?_
    rintro ⟨c, rfl, hlists, he⟩
    refine .inr ⟨_, .assign p c, he, ?_⟩
    rintro _ _ ⟨-, rfl⟩
    exact hlists
  | revoke p grant =>
    refine Ends.bind ((revoke_ends p grant e).mono (fun _ _ => id) fun _ _ => False.elim) ?_
    intro _ e' he
    exact .inr ⟨_, .revoke p grant, congrArg Engine.grants he, fun _ _ => False.elim⟩
  | replace p texts =>
    refine (replace_ends p texts e).bind fun _ e' => ?_
    rintro ⟨cs, rfl, hlists, he⟩
    refine .inr ⟨_, .replace p cs, he, ?_⟩
    rintro _ _ ⟨-, c, hc, rfl⟩
    exact hlists _ (List.mem_map_of_mem hc)

theorem grants_of_perform (q : Request) (e : Engine κ) :
    (q.perform e).state.grants = e.grants ∨
      ∃ ch, q.Asks ch ∧ (q.perform e).state.grants = e.grants.after ch := by
  refine Ends.state (P := fun e' => e'.grants = e.grants ∨
    ∃ ch, q.Asks ch ∧ e'.grants = e.grants.after ch) ((perform_grants q e).mono ?_ ?_)
  · rintro _ _ (h | ⟨ch, hasks, h, -⟩)
    · exact .inl h
    · exact .inr ⟨ch, hasks, h⟩
  · exact fun _ _ => .inl

/-! ### Acts -/

/-- What can happen to an engine. -/
inductive Act where
  /-- A request, under some faults of the catalog. -/
  | ask (faults : List Fault) (q : Request)
  /-- A change of the grant store, made beside the engine. -/
  | change (ch : Change)

def act (e : Engine (FaultyCatalog κ)) : Act → Engine (FaultyCatalog κ)
  | .ask faults q => (q.perform (e.withFaults faults)).state
  | .change ch => { e with grants := e.grants.after ch }

def run (e : Engine (FaultyCatalog κ)) (acts : List Act) : Engine (FaultyCatalog κ) :=
  acts.foldl act e

theorem run_append (e : Engine (FaultyCatalog κ)) (acts acts' : List Act) :
    e.run (acts ++ acts') = (e.run acts).run acts' :=
  List.foldl_append

theorem run_concat (e : Engine (FaultyCatalog κ)) (acts : List Act) (a : Act) :
    e.run (acts ++ [a]) = (e.run acts).act a :=
  run_append e acts [a]

end Engine

end Warrant
