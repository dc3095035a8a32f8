import Warrant.Proofs.Engine.Administration
import Warrant.Proofs.Engine.Request

/-!
# What a failed request leaves behind

The catalog is one whose batches are all or nothing: a call that fails leaves the set that it held
(`CatalogLaw.Atomic`). Then a request that fails leaves the grants and the catalog as they were,
with one exception: a synchronisation whose removals fail leaves the additions made
(`state_after_failure`). A request for access that cannot read the catalog fails.
-/

namespace Warrant

/-! ### Catalogs whose batches are all or nothing -/

/-- A call that fails leaves the set that the catalog held. -/
def CatalogLaw.Atomic {κ : Type} [CatalogStore κ] (law : CatalogLaw κ) : Prop :=
  ∀ k s, law.Failed k s → law.Holds k s

theorem MemoryCatalog.law_atomic : MemoryCatalog.law.Atomic := fun _ _ => False.elim

theorem FaultyCatalog.law_atomic {κ : Type} [CatalogStore κ] {inside : CatalogLaw κ}
    (h : inside.Atomic) (faults : List Fault) : (FaultyCatalog.law faults inside).Atomic := by
  rintro k s ⟨hfaults, ⟨-, hholds⟩ | hfailed⟩
  · exact ⟨hfaults, hholds⟩
  · exact ⟨hfaults, h _ _ hfailed⟩

open Call

namespace Delta

variable {κ : Type} [CatalogStore κ] {law : CatalogLaw κ} {d : Delta} {k : κ} {s : TextSet}

/-- The additions are made, and then the removals fail. -/
def FailsToRemove (d : Delta) (k : κ) : Prop :=
  ∃ k' f, d.addBatch.Answers k () k' ∧ (d.removeBatch k').answer = .error f

/-- Carrying out a difference that fails leaves the additions if the removals failed, and otherwise
the catalog as it was. -/
theorem apply_left (hatomic : law.Atomic) (h : law.Holds k s) :
    d.apply.Ends k (fun _ k' => law.Holds k' (d.applyTo s))
      (fun _ k' => (d.FailsToRemove k → law.Holds k' (s ∪ d.toAdd)) ∧
        (¬ d.FailsToRemove k → law.Holds k' s)) := by
  obtain ⟨events, hemit⟩ := announce_eq_emit (κ := κ) d
  unfold apply
  rw [hemit]
  refine ends_emit_bind.2 ?_
  refine Ends.bind (((ends_self _ k).and (addBatch_ends law h)).mono (fun _ _ => id) ?_) ?_
  · -- The additions fail, so the removals are not reached.
    rintro f k' ⟨⟨hf, -⟩, hk'⟩
    refine ⟨?_, fun _ => hatomic _ _ hk'⟩
    rintro ⟨_, _, ⟨hadded, -⟩, -⟩
    cases hf.symm.trans hadded
  · rintro ⟨⟩ k' ⟨hadded, hk'⟩
    refine ((ends_self _ k').and (removeBatch_ends law hk')).mono (fun _ _ hk => hk.2) ?_
    rintro f k'' ⟨⟨hf, -⟩, hk''⟩
    exact ⟨fun _ => hatomic _ _ hk'', fun hnot => absurd ⟨k', f, hadded, hf⟩ hnot⟩

end Delta

namespace Engine

variable {κ α : Type}

/-- After a failure only the catalog may be another one, which is as `P` says; the guard is as it
was, unless the call broke off. -/
def Left (e : Engine κ) (f : Failure EngineError) (P : κ → Prop) (e' : Engine κ) : Prop :=
  ∃ k guard, P k ∧ (∀ reason, f = .error reason → guard = e.guard) ∧ e' = ⟨e.grants, k, guard⟩

theorem OnlyCatalog.left {e e' : Engine κ} {P Q : κ → Prop} {f : Failure EngineError}
    (h : e.OnlyCatalog P e') (hPQ : ∀ k, P k → Q k) : e.Left f Q e' := by
  obtain ⟨k, hk, rfl⟩ := h
  exact ⟨k, e.guard, hPQ k hk, fun _ _ => rfl, rfl⟩

theorem leaving_left {c : Op κ α} {e : Engine κ} {ok : α → Engine κ → Prop} {P : κ → Prop}
    (hfree : e.guard.held = false)
    (hc : c.Ends e.entered ok fun _ e' => e.entered.OnlyCatalog P e') :
    (enter >>= fun _ => leaving c).Ends e
      (fun a e' => ∃ t, ok a t ∧ e' = { t with guard := t.guard.release false })
      (fun f e' => e.Left f P e') := by
  rw [ends_bind_of_ok (enter_of_free hfree)]
  refine (leaving_ends hc).mono (fun _ _ => id) ?_
  rintro f _ ⟨_, ⟨k, hk, rfl⟩, rfl⟩
  refine ⟨k, _, hk, ?_, rfl⟩
  rintro reason rfl
  exact release_entered hfree

theorem left_self {e : Engine κ} {f : Failure EngineError} {P : κ → Prop} (h : P e.catalog) :
    e.Left f P e :=
  ⟨e.catalog, e.guard, h, fun _ _ => rfl, rfl⟩

variable [CatalogStore κ] {law : CatalogLaw κ} {e : Engine κ} {s : TextSet} {r : Registry}

/-- However the call ends, the catalog holds some set then; if it fails, the set that it held
before. -/
def Settles (law : CatalogLaw κ) (e : Engine κ) (s : TextSet) (c : Op κ α) : Prop :=
  c.Ends e (fun _ e' => ∃ t, law.Holds e'.catalog t) (fun f e' => e.Left f (law.Holds · s) e')

theorem Settles.reply {c : Op κ α} (h : Settles law e s c) (f : α → Reply) :
    Settles law e s (c >>= fun a => pure (f a)) :=
  h.bind fun _ _ => id

theorem settles_of_onlyCatalog {c : Op κ α}
    (h : c.Ends e (fun _ e' => e.OnlyCatalog (law.Holds · s) e')
      (fun _ e' => e.OnlyCatalog (law.Holds · s) e')) : Settles law e s c := by
  refine h.mono ?_ fun _ _ he => he.left fun _ => id
  rintro _ _ ⟨k, hk, rfl⟩
  exact ⟨s, hk⟩

/-- A run leaves what it leaves inside the guard, or is refused and touches nothing. -/
theorem runSync_left {dryRun : Bool} {P Q : κ → Prop}
    (hcarry : (carryOut r dryRun).Ends e.entered (fun _ e' => ∃ t, law.Holds e'.catalog t)
      fun _ e' => e.entered.OnlyCatalog P e')
    (hfree : e.guard.held = false → ∀ k, P k → Q k) (hheld : e.guard.held = true → Q e.catalog) :
    (runSync r dryRun).Ends e (fun _ e' => ∃ t, law.Holds e'.catalog t)
      (fun f e' => e.Left f Q e') := by
  cases hguard : e.guard.held with
  | true =>
    rw [Ends, runSync_of_held hguard]
    exact left_self (hheld hguard)
  | false =>
    have hrun : (Call.emit (skipEvents r) >>= fun _ => carryOut r dryRun).Ends e.entered _ _ :=
      Call.ends_emit_bind.2 hcarry
    refine (leaving_left hguard hrun).mono ?_ ?_
    · rintro _ _ ⟨_, ⟨t, ht⟩, rfl⟩
      exact ⟨t, ht⟩
    · rintro f _ ⟨k, guard, hk, he⟩
      exact ⟨k, guard, hfree hguard k hk, he⟩

/-! ### Requests that make no removals -/

theorem revoke_settles (h : law.Holds e.catalog s) (p : Principal) (grant : String) :
    Settles law e s (revoke p grant) := by
  refine (revoke_ends p grant e).mono ?_ fun _ _ => False.elim
  rintro _ _ rfl
  exact ⟨s, h⟩

section Settled

variable (hatomic : law.Atomic)
include hatomic

theorem onCatalog_left {c : Call κ (Failure StoreError) α} {ok : α → κ → Prop}
    (hc : c.Ends e.catalog ok fun _ k => law.Failed k s) :
    (onCatalog c).Ends e (fun a e' => ∃ k, ok a k ∧ e' = { e with catalog := k })
      (fun f e' => e.Left f (law.Holds · s) e') := by
  refine (onCatalog_ends hc).mono (fun _ _ => id) ?_
  rintro f _ ⟨-, k, hk, -, rfl⟩
  exact ⟨k, e.guard, hatomic k s hk, fun _ _ => rfl, rfl⟩

theorem onCatalog_settles {c : Call κ (Failure StoreError) α} {t : TextSet}
    (hc : c.Ends e.catalog (fun _ k => law.Holds k t) fun _ k => law.Failed k s) :
    Settles law e s (onCatalog c) := by
  refine (onCatalog_left hatomic hc).mono ?_ fun _ _ => id
  rintro _ _ ⟨k, hk, rfl⟩
  exact ⟨t, hk⟩

variable (h : law.Holds e.catalog s)
include h

theorem resolveAccess_onlyCatalog (p : Principal) (entity action : String) :
    (resolveAccess p entity action).Ends e (fun _ e' => e.OnlyCatalog (law.Holds · s) e')
      (fun _ e' => e.OnlyCatalog (law.Holds · s) e') := by
  have hload : law.Holds (CatalogStore.load e.catalog).state s :=
    Ends.state ((law.load h).mono (fun _ _ hk => hk.2) fun _ k hk => hatomic k s hk)
  refine (resolveAccess_ends p entity action e).mono ?_ ?_
  · rintro _ _ ⟨_, -, -, rfl⟩
    exact ⟨_, hload, rfl⟩
  · rintro _ _ ⟨_, -, -, rfl⟩
    exact ⟨_, hload, rfl⟩

theorem authorize_onlyCatalog (p : Principal) (entity action : String) :
    (authorize p entity action).Ends e (fun _ e' => e.OnlyCatalog (law.Holds · s) e')
      (fun _ e' => e.OnlyCatalog (law.Holds · s) e') := by
  refine (resolveAccess_onlyCatalog hatomic h p entity action).bind fun tier e' he => ?_
  split
  · exact he
  · exact he

theorem assign_settles (p : Principal) (capability : String) :
    Settles law e s (assign p capability) := by
  unfold assign
  refine Ends.bind ((parse_ends capability e).mono (fun _ _ => id) ?_) ?_
  · rintro f _ rfl
    exact left_self h
  rintro c e ⟨-, rfl⟩
  refine (onCatalog_left hatomic (law.contains capability h)).bind ?_
  rintro known _ ⟨k, ⟨-, hk⟩, rfl⟩
  cases known with
  | false => exact ⟨k, e.guard, hk, fun _ _ => rfl, rfl⟩
  | true =>
    refine (changed_ends _ _ _).mono ?_ fun _ _ => False.elim
    rintro _ _ rfl
    exact ⟨s, hk⟩

theorem replace_settles (p : Principal) (texts : List String) :
    Settles law e s (replace p texts) := by
  unfold replace
  refine (onCatalog_left hatomic (law.load h)).bind ?_
  rintro catalog _ ⟨k, ⟨-, hk⟩, rfl⟩
  split
  · exact ⟨k, e.guard, hk, fun _ _ => rfl, rfl⟩
  · exact ⟨s, hk⟩

theorem planSync_settles (r : Registry) : Settles law e s (planSync r) := by
  refine (planSync_ends law h).mono ?_ fun _ _ he => he.left fun k => hatomic k s
  rintro _ _ ⟨-, k, hk, rfl⟩
  exact ⟨s, hk⟩

theorem previewSync_settles (r : Registry) : Settles law e s (previewSync r) := by
  have hentered : law.Holds e.entered.catalog s := h
  have hcarry : (carryOut r true).Ends e.entered (fun _ e' => ∃ t, law.Holds e'.catalog t)
      fun _ e' => e.entered.OnlyCatalog (law.Holds · s) e' := by
    refine (carryOut_ends law hentered).mono ?_ ?_
    · rintro _ _ ⟨-, k, hk, rfl⟩
      exact ⟨s, hk⟩
    · rintro _ _ ⟨k, hk | ⟨htrue, -⟩, he⟩
      · exact ⟨k, hatomic k s hk, he⟩
      · cases htrue
  exact runSync_left hcarry (fun _ _ => id) fun _ => h

end Settled

/-! ### Removals that fail -/

/-- On this catalog, bringing it in line with a registry fails at the removals: it can be read, and
the additions are made. -/
def FailsAtRemovals (r : Registry) (k : κ) : Prop :=
  ∃ t k', CatalogStore.load.Answers k t k' ∧ (Delta.reconcile r.legal t).FailsToRemove k'

/-- A synchronisation gets the guard and fails at its removals. -/
def RemovalFails (r : Registry) (e : Engine κ) : Prop :=
  e.guard.held = false ∧ FailsAtRemovals r e.catalog

theorem difference_answers (law : CatalogLaw κ) (h : law.Holds e.catalog s) :
    (difference r).Ends e
      (fun d e' => ∃ k, CatalogStore.load.Answers e.catalog s k ∧ law.Holds k s ∧
        d = Delta.reconcile r.legal s ∧ e' = { e with catalog := k })
      (fun _ e' => ∃ f k, (CatalogStore.load e.catalog).answer = .error f ∧ law.Failed k s ∧
        e' = { e with catalog := k }) := by
  unfold difference
  refine ((onCatalog_ends ((ends_self _ e.catalog).and (law.load h))).mono (fun _ _ => id) ?_).bind
    ?_
  · rintro _ _ ⟨f, k, ⟨⟨hf, -⟩, hk⟩, -, rfl⟩
    exact ⟨f, k, hf, hk, rfl⟩
  · rintro t _ ⟨k, ⟨hload, rfl, hk⟩, rfl⟩
    exact ⟨k, hload, hk, rfl, rfl⟩

section Removals

variable (hatomic : law.Atomic) (h : law.Holds e.catalog s)
include hatomic h

/-- A run that fails leaves the additions if its removals failed, and otherwise the catalog as it
was. -/
theorem carryOut_left :
    (carryOut r false).Ends e (fun _ e' => ∃ t, law.Holds e'.catalog t)
      (fun _ e' => e.OnlyCatalog (fun k =>
        (FailsAtRemovals r e.catalog → law.Holds k (s ∪ r.legal)) ∧
        (¬ FailsAtRemovals r e.catalog → law.Holds k s)) e') := by
  unfold carryOut
  refine ((difference_answers law h).mono (fun _ _ => id) ?_).bind ?_
  · rintro _ _ ⟨f, k, hf, hk, rfl⟩
    refine ⟨k, ⟨?_, fun _ => hatomic k s hk⟩, rfl⟩
    rintro ⟨_, _, ⟨ht, -⟩, -⟩
    cases hf.symm.trans ht
  rintro d _ ⟨k, hload, hk, rfl, rfl⟩
  refine ((onCatalog_ends (Delta.apply_left hatomic hk)).mono (fun _ _ => id) ?_).bind ?_
  · rintro _ _ ⟨f, k', ⟨hfails, hholds⟩, -, rfl⟩
    rw [Delta.union_reconcile] at hfails
    refine ⟨k', ⟨?_, fun hnot => hholds fun hf => hnot ⟨s, k, hload, hf⟩⟩, rfl⟩
    -- Reading answers one set, so it is this difference whose removals fail.
    rintro ⟨t, k₁, ⟨ht, rfl⟩, hf⟩
    cases hload.1.symm.trans ht
    exact hfails (hload.2 ▸ hf)
  · rintro _ _ ⟨k', hk', rfl⟩
    exact ⟨_, hk'⟩

theorem synchronize_left (r : Registry) :
    (synchronize r).Ends e (fun _ e' => ∃ t, law.Holds e'.catalog t)
      (fun f e' => e.Left f (fun k => (RemovalFails r e → law.Holds k (s ∪ r.legal)) ∧
        (¬ RemovalFails r e → law.Holds k s)) e') := by
  refine runSync_left (carryOut_left hatomic h) (fun hfree k hk => ?_) fun hheld => ?_
  · exact ⟨fun hr => hk.1 hr.2, fun hr => hk.2 fun hf => hr ⟨hfree, hf⟩⟩
  · refine ⟨fun hr => ?_, fun _ => h⟩
    cases hheld.symm.trans hr.1

/-- A synchronisation apart, a request that fails leaves the set that the catalog held. -/
theorem perform_settles (q : Request) (hother : ∀ r, q ≠ .synchronize r) :
    Settles law e s q.perform := by
  have hload := (law.load h).mono (fun _ _ hk => hk.2) fun _ _ => id
  have hcontains (capability : String) :=
    (law.contains capability h).mono (fun _ _ hk => hk.2) fun _ _ => id
  cases q with
  | synchronize r => exact absurd rfl (hother r)
  | load => exact (onCatalog_settles hatomic hload).reply _
  | contains capability => exact (onCatalog_settles hatomic (hcontains capability)).reply _
  | addAll batch => exact (onCatalog_settles hatomic (law.addAll batch h)).reply _
  | removeAll batch => exact (onCatalog_settles hatomic (law.removeAll batch h)).reply _
  | resolveAccess p entity action =>
    exact (settles_of_onlyCatalog (resolveAccess_onlyCatalog hatomic h p entity action)).reply _
  | authorize p entity action =>
    exact (settles_of_onlyCatalog (authorize_onlyCatalog hatomic h p entity action)).reply _
  | assign p capability => exact (assign_settles hatomic h p capability).reply _
  | revoke p grant => exact (revoke_settles h p grant).reply _
  | replace p texts => exact (replace_settles hatomic h p texts).reply _
  | planSync r => exact (planSync_settles hatomic h r).reply _
  | previewSync r => exact (previewSync_settles hatomic h r).reply _

/-- A request that fails leaves all but the catalog as it was, and the catalog too, unless its
removals failed. -/
theorem perform_left (q : Request) :
    q.perform.Ends e (fun _ e' => ∃ t, law.Holds e'.catalog t)
      (fun f e' => e.Left f (fun k =>
        (∀ r, q = .synchronize r → RemovalFails r e → law.Holds k (s ∪ r.legal)) ∧
        ((∀ r, q = .synchronize r → ¬ RemovalFails r e) → law.Holds k s)) e') := by
  by_cases hsync : ∃ r, q = .synchronize r
  · obtain ⟨r, rfl⟩ := hsync
    refine ((synchronize_left hatomic h r).mono (fun _ _ => id) ?_).bind fun _ _ => id
    rintro f e' ⟨k, guard, ⟨hfails, hnot⟩, he⟩
    refine ⟨k, guard, ⟨?_, fun hother => hnot (hother r rfl)⟩, he⟩
    rintro _ ⟨⟩
    exact hfails
  · have hother : ∀ r, q ≠ .synchronize r := fun r hq => hsync ⟨r, hq⟩
    refine (perform_settles hatomic h q hother).mono (fun _ _ => id) ?_
    rintro f e' ⟨k, guard, hk, he⟩
    exact ⟨k, guard, ⟨fun r hq => absurd hq (hother r), fun _ => hk⟩, he⟩

end Removals

/-! ### Whatever happened before -/

section Run

variable {e : Engine (FaultyCatalog κ)}

theorem holds_act (hatomic : law.Atomic) (h : ∃ s, law.Holds e.catalog.inner s) (a : Act) :
    ∃ s, law.Holds (e.act a).catalog.inner s := by
  cases a with
  | change ch => exact h
  | ask faults q =>
    obtain ⟨s, hs⟩ := h
    have hholds : (FaultyCatalog.law faults law).Holds (e.withFaults faults).catalog s := ⟨rfl, hs⟩
    have hleft := perform_left (FaultyCatalog.law_atomic hatomic faults) hholds q
    refine Ends.state (P := fun e' => ∃ s, law.Holds e'.catalog.inner s)
      (hleft.mono (fun _ _ ⟨t, ht⟩ => ⟨t, ht.2⟩) ?_)
    rintro f _ ⟨k, guard, ⟨hfails, hnot⟩, -, rfl⟩
    by_cases hremoval : ∃ r, q = .synchronize r ∧ RemovalFails r (e.withFaults faults)
    · obtain ⟨r, hq, hr⟩ := hremoval
      exact ⟨_, (hfails r hq hr).2⟩
    · exact ⟨_, (hnot fun r hq hr => hremoval ⟨r, hq, hr⟩).2⟩

theorem holds_run (hatomic : law.Atomic) (h : ∃ s, law.Holds e.catalog.inner s)
    (acts : List Act) : ∃ s, law.Holds (e.run acts).catalog.inner s :=
  List.foldlRecOn (motive := fun e => ∃ s, law.Holds e.catalog.inner s) acts act h
    fun _ he a _ => holds_act hatomic he a

end Run

/-- After any acts, a request that fails leaves the grants and the set in the catalog as they were,
with one exception: a synchronisation whose removals fail leaves the legal set added. While the
catalog cannot be read, no request for access is answered. -/
theorem state_after_failure (hatomic : law.Atomic) (start : Engine (FaultyCatalog κ))
    (hstart : law.Holds start.catalog.inner s) (acts : List Act) :
    (∃ before, law.Holds (start.run acts).catalog.inner before) ∧
    ∀ faults,
      let e := (start.run acts).withFaults faults
      (∀ before, law.Holds e.catalog.inner before → ∀ (q : Request) (f : Failure EngineError),
        (q.perform e).answer = .error f →
          let after := (q.perform e).state
          after.grants = e.grants ∧
          (∀ reason, f = .error reason → after.guard = e.guard) ∧
          (∀ r, q = .synchronize r → RemovalFails r e →
            law.Holds after.catalog.inner (before ∪ r.legal)) ∧
          ((∀ r, q = .synchronize r → ¬ RemovalFails r e) →
            law.Holds after.catalog.inner before)) ∧
      ∀ f, (CatalogStore.load e.catalog).answer = .error f → ∀ p entity action,
        (resolveAccess p entity action e).answer = .error (f.map .store) ∧
          (authorize p entity action e).answer = .error (f.map .store) := by
  refine ⟨holds_run hatomic ⟨s, hstart⟩ acts, fun faults => ?_⟩
  intro e
  refine ⟨?_, fun f hload p entity action => access_of_load_error p entity action hload⟩
  intro before hbefore q f hfailed after
  have hholds : (FaultyCatalog.law faults law).Holds e.catalog before := ⟨rfl, hbefore⟩
  have hleft := perform_left (FaultyCatalog.law_atomic hatomic faults) hholds q
  obtain ⟨k, guard, ⟨hfails, hnot⟩, hguard, he⟩ := hleft.of_error hfailed
  rw [show after = _ from he]
  exact ⟨rfl, hguard, fun r hq hr => (hfails r hq hr).2, fun h => (hnot h).2⟩

/-- A synchronisation whose additions fail leaves the catalog; when its removals fail, the additions
stay. The membership given before stays in either case. -/
theorem additions_stay_after_failed_removals :
    let r : Registry := ⟨[.restricted "post" "delete"]⟩
    let start : Engine (FaultyCatalog MemoryCatalog) :=
      new .empty ⟨[], ⟨TextSet.ofList ["post:old"]⟩⟩
    let acts : List Act :=
      [.change (.addRole "ann" "editor"), .ask [⟨.add, false⟩] (.synchronize r)]
    let e := (start.run acts).withFaults [⟨.remove, false⟩]
    let after := (synchronize r e).state
    e.catalog.inner.entries = TextSet.ofList ["post:old"] ∧
      after.catalog.inner.entries =
        TextSet.ofList ["*:*:*", "post:*", "post:delete", "post:old"] ∧
      after.grants.rolesOf "ann" = TextSet.ofList ["editor"] := by
  intro r start acts e after
  have hold : e.catalog.inner.entries = TextSet.ofList ["post:old"] := by decide +kernel
  have hlegal : r.legal = TextSet.ofList ["*:*:*", "post:*", "post:delete"] := by decide +kernel
  have hremove : ((Delta.reconcile r.legal e.catalog.inner.entries).removeBatch
      ((Delta.reconcile r.legal e.catalog.inner.entries).addBatch e.catalog).state).answer =
        .error (.error ⟨"flaky", "remove failed"⟩) := by
    decide +kernel
  have hfails : RemovalFails r e :=
    ⟨by decide +kernel, _, _, ⟨rfl, rfl⟩, _, _, ⟨by decide +kernel, rfl⟩, hremove⟩
  obtain ⟨-, hstate⟩ := state_after_failure MemoryCatalog.law_atomic start rfl acts
  obtain ⟨hgrants, -, hremovals, -⟩ := (hstate [⟨.remove, false⟩]).1 _ hold (.synchronize r)
    (.error (.store ⟨"flaky", "remove failed"⟩)) (by decide +kernel)
  refine ⟨hold, (hremovals r rfl hfails).trans ?_, ?_⟩
  · rw [hlegal]
    decide +kernel
  · rw [show after.grants = _ from hgrants]
    decide +kernel

end Engine

end Warrant
