import Mathlib.Logic.Function.Iterate
import Warrant.Proofs.Engine.Synchronization

/-!
# Synchronisations step by step

A run of `runSync` is cut into its atomic steps: take the guard, read the catalog, add, remove, give
the guard back. Alone, the steps come to what `runSync` comes to (`reaches_runSync`). `step_guard`
follows the guard through a step, which may come between the steps of other runs.
-/

namespace Warrant.Engine

/-! ### The steps of one run -/

/-- How far a run has come. -/
inductive Stage where
  /-- It has not begun. -/
  | waiting
  /-- It has the guard and reads the catalog next. -/
  | reading
  /-- It adds what is missing next. -/
  | adding (delta : Delta)
  /-- It removes what is in excess next. -/
  | removing (delta : Delta)
  /-- It has nothing left to do but to give the guard back. -/
  | ending (answer : Except (Failure EngineError) Report)
  | returned (answer : Except (Failure EngineError) Report)

namespace Stage

/-- Whether the run is between taking the guard and giving it back. -/
def holdsGuard : Stage → Bool
  | waiting | returned _ => false
  | reading | adding _ | removing _ | ending _ => true

variable {κ α : Type}

/-- Goes on after a call, or to the end if it failed. -/
def after (out : Outcome (Engine κ) (Failure EngineError) α) (next : α → Stage) :
    Stage × Engine κ :=
  match out.answer with
  | .ok a => (next a, out.state)
  | .error f => (ending (.error f), out.state)

variable [CatalogStore κ] (r : Registry) (dryRun : Bool)

/-- The next step of a run, which changes its engine at most once. -/
def step : Stage × Engine κ → Stage × Engine κ
  | (waiting, e) =>
    match (enter e).answer with
    | .ok _ => (reading, (enter e).state)
    | .error f => (returned (.error f), (enter e).state)
  | (reading, e) => after (difference r e) fun d =>
      if dryRun then ending (.ok ⟨d.toAdd, d.toRemove, dryRun⟩) else adding d
  | (adding d, e) => after (onCatalog d.addBatch e) fun _ => removing d
  | (removing d, e) => after (onCatalog d.removeBatch e) fun _ =>
      ending (.ok ⟨d.toAdd, d.toRemove, dryRun⟩)
  | (ending answer, e) =>
    (returned answer, { e with guard := e.guard.release (brokeOff answer) })
  | (returned answer, e) => (returned answer, e)

def Reaches (a b : Stage × Engine κ) : Prop := ∃ n, (step r dryRun)^[n] a = b

variable {r dryRun} {a b c : Stage × Engine κ}

theorem Reaches.step (a : Stage × Engine κ) : Reaches r dryRun a (step r dryRun a) := ⟨1, rfl⟩

theorem Reaches.trans (h : Reaches r dryRun a b) (h' : Reaches r dryRun b c) :
    Reaches r dryRun a c := by
  obtain ⟨m, rfl⟩ := h
  obtain ⟨n, rfl⟩ := h'
  exact ⟨n + m, Function.iterate_add_apply _ _ _ _⟩

end Stage

variable {κ α β : Type} {e : Engine κ}

open Stage

/-! ### Calls on the catalog -/

theorem onCatalog_bind {c : Call κ (Failure StoreError) α} {f : α → Call κ (Failure StoreError) β} :
    onCatalog (c >>= f) = onCatalog c >>= fun a => onCatalog (f a) :=
  Call.onPart_bind (fun _ _ => rfl) fun _ _ _ => rfl

theorem onCatalog_announce (d : Delta) :
    (onCatalog d.announce).Ends e (fun _ t => t = e) fun _ _ => False := by
  obtain ⟨events, hemit⟩ := Delta.announce_eq_emit (κ := κ) d
  rw [hemit]
  rfl

theorem onCatalog_guard (c : Call κ (Failure StoreError) α) :
    (onCatalog c e).state.guard = e.guard := rfl

/-! ### The guard in one step -/

theorem after_guard {out : Outcome (Engine κ) (Failure EngineError) α} {next : α → Stage}
    (hguard : out.state.guard = e.guard) (hnext : ∀ a, (next a).holdsGuard = true) :
    (after out next).2.guard.held.toNat + 1 =
      e.guard.held.toNat + (after out next).1.holdsGuard.toNat := by
  have hkept : (after out next).1.holdsGuard = true ∧ (after out next).2.guard = e.guard := by
    unfold after
    split
    · exact ⟨hnext _, hguard⟩
    · exact ⟨rfl, hguard⟩
  rw [hkept.1, hkept.2]
  rfl

variable [CatalogStore κ] {r : Registry} {dryRun : Bool}

theorem difference_guard : (difference r e).state.guard = e.guard := by
  unfold difference
  rw [Call.bind_apply]
  split
  · rename_i h; exact congrArg (fun out => out.state.guard) h.symm
  · rename_i h; exact congrArg (fun out => out.state.guard) h.symm

/-- A step takes the guard exactly as its run comes to hold it, and gives it back exactly as its run
ceases to. -/
theorem step_guard (r : Registry) (dryRun : Bool) {stage : Stage}
    (h : stage.holdsGuard = true → e.guard.held = true) :
    (step r dryRun (stage, e)).2.guard.held.toNat + stage.holdsGuard.toNat =
      e.guard.held.toNat + (step r dryRun (stage, e)).1.holdsGuard.toNat := by
  cases stage with
  | waiting =>
    cases hheld : e.guard.held with
    | true =>
      rw [step, enter_of_held hheld, hheld]
      rfl
    | false =>
      rw [step, enter_of_free hheld]
      rfl
  | reading =>
    refine after_guard difference_guard fun d => ?_
    cases dryRun with
    | true => rfl
    | false => rfl
  | adding d => exact after_guard (onCatalog_guard _) fun _ => rfl
  | removing d => exact after_guard (onCatalog_guard _) fun _ => rfl
  | ending answer =>
    have hheld : e.guard.held = true := h rfl
    rw [step, hheld]
    rfl
  | returned answer => rfl

/-! ### A run alone -/

theorem ends_after {c : Op κ α} {next : α → Stage} {stage : Stage}
    (h : step r dryRun (stage, e) = after (c e) next) :
    c.Ends e (fun a t => Reaches r dryRun (stage, e) (next a, t))
      (fun f t => Reaches r dryRun (stage, e) (ending (.error f), t)) := by
  have hstep : Reaches r dryRun (stage, e) _ := Reaches.step _
  rw [h] at hstep
  unfold Call.Ends
  unfold after at hstep
  cases ha : (c e).answer with
  | ok a => rw [ha] at hstep; exact hstep
  | error f => rw [ha] at hstep; exact hstep

/-- The two batches, one after the other, come to carrying out the difference. -/
theorem applied_reaches {d : Delta} :
    (onCatalog d.apply).Ends e
      (fun _ t => Reaches r dryRun (adding d, e) (ending (.ok ⟨d.toAdd, d.toRemove, dryRun⟩), t))
      (fun f t => Reaches r dryRun (adding d, e) (ending (.error f), t)) := by
  unfold Delta.apply
  rw [onCatalog_bind]
  refine Call.Ends.bind ((onCatalog_announce d).mono (fun _ _ => id) fun _ _ => False.elim) ?_
  rintro _ e rfl
  rw [onCatalog_bind]
  have hadd : (onCatalog d.addBatch).Ends e
      (fun _ t => Reaches r dryRun (adding d, e) (removing d, t)) _ := ends_after rfl
  refine hadd.bind fun _ t hadded => ?_
  have hremove : (onCatalog d.removeBatch).Ends t (fun _ t' => Reaches r dryRun (removing d, t)
      (ending (.ok ⟨d.toAdd, d.toRemove, dryRun⟩), t')) _ := ends_after rfl
  exact hremove.mono (fun _ _ h => hadded.trans h) fun _ _ h => hadded.trans h

theorem carryOut_reaches :
    (carryOut r dryRun).Ends e
      (fun report t => Reaches r dryRun (reading, e) (ending (.ok report), t))
      (fun f t => Reaches r dryRun (reading, e) (ending (.error f), t)) := by
  unfold carryOut
  refine Call.Ends.bind (ends_after rfl) fun d t hread => ?_
  cases dryRun with
  | true => exact hread
  | false =>
    refine Call.Ends.bind (applied_reaches.mono (fun _ _ h => hread.trans h) ?_) fun _ _ h => h
    exact fun _ _ h => hread.trans h

/-- The steps of a run that is left alone come to what the run comes to. -/
theorem reaches_runSync :
    (runSync r dryRun).Ends e
      (fun report t => Reaches r dryRun (waiting, e) (returned (.ok report), t))
      (fun f t => Reaches r dryRun (waiting, e) (returned (.error f), t)) := by
  have hwait : Reaches r dryRun (waiting, e) _ := Reaches.step _
  cases hheld : e.guard.held with
  | true =>
    rw [step, enter_of_held hheld] at hwait
    rw [Call.Ends, runSync_of_held hheld]
    exact hwait
  | false =>
    rw [step, enter_of_free hheld] at hwait
    rw [runSync, Call.ends_bind_of_ok (enter_of_free hheld)]
    have hcarry : (Call.emit (skipEvents r) >>= fun _ => carryOut r dryRun).Ends e.entered _ _ :=
      Call.ends_emit_bind.2 carryOut_reaches
    refine (leaving_ends hcarry).mono ?_ ?_
    · rintro report _ ⟨t, h, rfl⟩
      exact (hwait.trans h).trans (Reaches.step _)
    · rintro f _ ⟨t, h, rfl⟩
      exact (hwait.trans h).trans (Reaches.step _)

end Warrant.Engine
