import Warrant.Engine
import Warrant.Proofs.Catalog.Law

/-!
# One synchronisation

What a run does to an engine whose catalog keeps a law: it is refused while the guard is held
(`runSync_of_held`), and otherwise reports the difference between the legal set and the set that the
catalog holds, and has carried it out unless it is dry (`runSync_ends`). A run that fails does so
on the catalog as it was, or as it is with the additions.
-/

namespace Warrant

namespace Engine

variable {κ α : Type} {e : Engine κ} {s : TextSet} {r : Registry} {dryRun : Bool}

/-! ### Parts of the engine -/

/-- Of an engine only the catalog was changed, which now is as `P` says. -/
def OnlyCatalog (e : Engine κ) (P : κ → Prop) (e' : Engine κ) : Prop :=
  ∃ k, P k ∧ e' = { e with catalog := k }

theorem OnlyCatalog.trans {P Q : κ → Prop} {t e' : Engine κ} (ht : e.OnlyCatalog P t)
    (h : t.OnlyCatalog Q e') : e.OnlyCatalog Q e' := by
  obtain ⟨_, -, rfl⟩ := ht
  obtain ⟨k, hk, rfl⟩ := h
  exact ⟨k, hk, rfl⟩

theorem onCatalog_ends {c : Call κ (Failure StoreError) α} {ok : α → κ → Prop}
    {err : Failure StoreError → κ → Prop} (h : c.Ends e.catalog ok err) :
    (onCatalog c).Ends e (fun a e' => ∃ k, ok a k ∧ e' = { e with catalog := k })
      (fun f e' => ∃ f' k, err f' k ∧ f = f'.map .store ∧ e' = { e with catalog := k }) :=
  h.onPart.mono (fun _ _ ⟨k, hk⟩ => ⟨k, hk⟩) fun _ _ ⟨f', k, hk⟩ => ⟨f', k, hk⟩

theorem leaving_ends {c : Op κ α} {ok : α → Engine κ → Prop}
    {err : Failure EngineError → Engine κ → Prop} (h : c.Ends e ok err) :
    (leaving c).Ends e (fun a e' => ∃ t, ok a t ∧ e' = { t with guard := t.guard.release false })
      (fun f e' => ∃ t, err f t ∧
        e' = { t with guard := t.guard.release (brokeOff (.error f : Except _ α)) }) := by
  unfold Call.Ends at h
  unfold Call.Ends leaving
  dsimp only
  cases ha : (c e).answer with
  | ok a =>
    rw [ha] at h
    exact ⟨_, h, rfl⟩
  | error f =>
    rw [ha] at h
    exact ⟨_, h, rfl⟩

def entered (e : Engine κ) : Engine κ := { e with guard := { e.guard with held := true } }

/-- The guard is free again after a run that was not broken off, as it was before. -/
theorem release_entered (h : e.guard.held = false) : e.entered.guard.release false = e.guard := by
  unfold entered Guard.release
  rw [Bool.or_false, ← h]

theorem enter_of_held (h : e.guard.held = true) :
    (enter : Op κ Unit) e = ⟨.error (.error .syncInProgress), e, []⟩ := by
  unfold enter Guard.tryTake?
  rw [if_pos h]

theorem enter_of_free (h : e.guard.held = false) :
    (enter : Op κ Unit) e = ⟨.ok (), e.entered, []⟩ := by
  unfold enter Guard.tryTake?
  rw [if_neg (by rw [h]; exact Bool.false_ne_true)]
  rfl

variable [CatalogStore κ] (law : CatalogLaw κ)

/-! ### The steps of a run -/

theorem difference_ends (h : law.Holds e.catalog s) :
    (difference r).Ends e
      (fun d e' => d = Delta.reconcile r.legal s ∧ e.OnlyCatalog (law.Holds · s) e')
      (fun _ e' => e.OnlyCatalog (law.Failed · s) e') := by
  unfold difference
  refine Call.Ends.bind ((onCatalog_ends (law.load h)).mono (fun _ _ => id) ?_) ?_
  · rintro _ e' ⟨_, k, hk, -, he⟩
    exact ⟨k, hk, he⟩
  · rintro t e' ⟨k, ⟨rfl, hk⟩, he⟩
    exact ⟨rfl, k, hk, he⟩

theorem planSync_ends (h : law.Holds e.catalog s) :
    (planSync r).Ends e
      (fun d e' => d = Delta.reconcile r.legal s ∧ e.OnlyCatalog (law.Holds · s) e')
      (fun _ e' => e.OnlyCatalog (law.Failed · s) e') := by
  unfold planSync
  exact Call.ends_emit_bind.2 (difference_ends law h)

theorem applied_ends {d : Delta} (h : law.Holds e.catalog s) :
    (onCatalog d.apply).Ends e (fun _ e' => e.OnlyCatalog (law.Holds · (d.applyTo s)) e')
      (fun _ e' => e.OnlyCatalog (fun k => law.Failed k s ∨ law.Failed k (s ∪ d.toAdd)) e') := by
  refine (onCatalog_ends (Delta.apply_ends law h)).mono ?_ ?_
  · rintro _ e' ⟨k, hk, he⟩
    exact ⟨k, hk, he⟩
  · rintro _ e' ⟨_, k, hk, -, he⟩
    exact ⟨k, hk, he⟩

/-- How a run that fails may leave a catalog that held `s`. -/
def FailedRun (r : Registry) (dryRun : Bool) (s : TextSet) (k : κ) : Prop :=
  law.Failed k s ∨ dryRun = false ∧ law.Failed k (s ∪ r.legal)

theorem carryOut_ends (h : law.Holds e.catalog s) :
    (carryOut r dryRun).Ends e
      (fun report e' => report = ⟨r.legal \ s, s \ r.legal, dryRun⟩ ∧
        e.OnlyCatalog (law.Holds · (if dryRun then s else r.legal)) e')
      (fun _ e' => e.OnlyCatalog (FailedRun law r dryRun s) e') := by
  unfold carryOut
  refine Call.Ends.bind ((difference_ends law h).mono (fun _ _ => id) ?_) ?_
  · rintro _ _ ⟨k, hk, he⟩
    exact ⟨k, .inl hk, he⟩
  rintro _ t ⟨rfl, ht⟩
  cases dryRun with
  | true => exact ⟨rfl, ht⟩
  | false =>
    have hk : law.Holds t.catalog s := by
      obtain ⟨k, hk, rfl⟩ := ht
      exact hk
    refine Call.Ends.bind ((applied_ends law hk).mono (fun _ _ => id) ?_) ?_
    · rintro _ e' ⟨k, hk, he⟩
      rw [Delta.union_reconcile] at hk
      exact ht.trans ⟨k, hk.imp_right fun hk => ⟨rfl, hk⟩, he⟩
    · intro _ e' he
      rw [Delta.applyTo_reconcile] at he
      exact ⟨rfl, ht.trans he⟩

/-! ### A run -/

/-- While the guard is held, a run is refused and touches nothing. -/
theorem runSync_of_held (h : e.guard.held = true) :
    runSync r dryRun e = ⟨.error (.error .syncInProgress), e, []⟩ := by
  unfold runSync
  rw [Call.bind_of_error (enter_of_held h)]

theorem runSync_guard : (runSync r dryRun e).state.guard.held = e.guard.held := by
  cases h : e.guard.held with
  | true =>
    rw [runSync_of_held h]
    exact h
  | false =>
    unfold runSync
    rw [Call.bind_of_ok (enter_of_free h)]
    rfl

variable (r dryRun)

theorem runSync_ends (hfree : e.guard.held = false) (h : law.Holds e.catalog s) :
    (runSync r dryRun).Ends e
      (fun report e' => report = ⟨r.legal \ s, s \ r.legal, dryRun⟩ ∧
        e.OnlyCatalog (law.Holds · (if dryRun then s else r.legal)) e')
      (fun f e' => ∃ k, FailedRun law r dryRun s k ∧ e' = { e with
        catalog := k, guard := e.guard.release (brokeOff (.error f : Except _ Report)) }) := by
  unfold runSync
  rw [Call.ends_bind_of_ok (enter_of_free hfree)]
  have hcarry : (Call.emit (skipEvents r) >>= fun _ => carryOut r dryRun).Ends e.entered _ _ :=
    Call.ends_emit_bind.2 (carryOut_ends law h)
  refine (leaving_ends hcarry).mono ?_ ?_
  · rintro report _ ⟨_, ⟨hreport, k, hk, rfl⟩, rfl⟩
    refine ⟨hreport, k, hk, ?_⟩
    rw [release_entered hfree]
    rfl
  · rintro f _ ⟨_, ⟨k, hk, rfl⟩, rfl⟩
    exact ⟨k, hk, rfl⟩

/-- Where no call on the catalog fails, neither does a run that finds the guard free. -/
theorem runSync_of_free (hnever : ∀ k t, ¬ law.Failed k t) (hfree : e.guard.held = false)
    (h : law.Holds e.catalog s) :
    (runSync r dryRun e).answer = .ok ⟨r.legal \ s, s \ r.legal, dryRun⟩ ∧
      e.OnlyCatalog (law.Holds · (if dryRun then s else r.legal)) (runSync r dryRun e).state := by
  obtain ⟨report, hanswer, rfl, hleft⟩ := (runSync_ends r dryRun law hfree h).answers <| by
    rintro _ _ ⟨k, hk | ⟨-, hk⟩, -⟩
    · exact hnever k _ hk
    · exact hnever k _ hk
  exact ⟨hanswer, hleft⟩

/-! ### A run that changes nothing -/

variable {r dryRun} {events : List Event}

omit [CatalogStore κ] in
theorem leaving_of_ok {c : Op κ α} {a : α} {t : Engine κ} (h : c e = ⟨.ok a, t, events⟩) :
    leaving c e = ⟨.ok a, { t with guard := t.guard.release false }, events⟩ := by
  unfold leaving
  rw [h]
  rfl

theorem carryOut_of_load (hload : CatalogStore.load e.catalog = ⟨.ok s, e.catalog, events⟩)
    (hrest : dryRun = true ∨ s = r.legal) :
    ∃ events', carryOut r dryRun e = ⟨.ok ⟨r.legal \ s, s \ r.legal, dryRun⟩, e, events'⟩ := by
  have hdifference : difference r e = ⟨.ok (Delta.reconcile r.legal s), e, events ++ []⟩ := by
    have hcatalog : onCatalog CatalogStore.load e = ⟨.ok s, e, events⟩ := by
      unfold onCatalog Call.onPart
      rw [hload]
      rfl
    unfold difference
    rw [Call.bind_of_ok hcatalog]
    rfl
  unfold carryOut
  rw [Call.bind_of_ok hdifference]
  rcases hrest with rfl | rfl
  · exact ⟨_, rfl⟩
  · cases dryRun with
    | true => exact ⟨_, rfl⟩
    | false =>
      -- Neither batch is made.
      rw [Delta.reconcile, TextSet.sdiff_self]
      exact ⟨_, rfl⟩

/-- A run that is dry, or that finds the legal set in the catalog, leaves the engine as it is. -/
theorem runSync_of_load (hfree : e.guard.held = false)
    (hload : CatalogStore.load e.catalog = ⟨.ok s, e.catalog, events⟩)
    (hrest : dryRun = true ∨ s = r.legal) :
    ∃ events', runSync r dryRun e = ⟨.ok ⟨r.legal \ s, s \ r.legal, dryRun⟩, e, events'⟩ := by
  obtain ⟨events', hcarry⟩ := carryOut_of_load (e := e.entered) hload hrest
  have hbody : (Call.emit (skipEvents r) >>= fun _ => carryOut r dryRun : Op κ Report) e.entered =
      ⟨.ok ⟨r.legal \ s, s \ r.legal, dryRun⟩, e.entered, skipEvents r ++ events'⟩ := by
    rw [Call.bind_of_ok (Call.emit_apply _ _), hcarry]
  unfold runSync
  rw [Call.bind_of_ok (enter_of_free hfree), leaving_of_ok hbody, release_entered hfree]
  exact ⟨_, rfl⟩

end Engine

end Warrant
