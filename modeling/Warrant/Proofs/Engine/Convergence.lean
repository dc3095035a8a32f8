import Warrant.Proofs.Engine.Interleaving

/-!
# Convergence

A session is an engine with synchronisations on it: whole calls one after the other, and runs whose
steps come between those of others. Every catalog call may fail under the faults of its moment. The
guard is held just as long as one run has it (`exclusive_run`), so once no run is under way a
synchronisation without faults brings the catalog in line, whatever came before
(`synchronize_converges`).
-/

namespace Warrant.Engine

/-- A run that was begun, and how far it has come. -/
structure Attempt where
  registry : Registry
  dryRun : Bool
  stage : Stage

/-- An engine on a catalog that may fail, and the runs on it. -/
structure Session (κ : Type) where
  engine : Engine (FaultyCatalog κ)
  attempts : List Attempt

inductive Move where
  /-- A whole call of `runSync`, under some faults. -/
  | call (registry : Registry) (dryRun : Bool) (faults : List Fault)
  /-- A run begins that others may overlap. -/
  | start (registry : Registry) (dryRun : Bool)
  /-- One of those runs takes a step, under some faults. -/
  | step (attempt : Nat) (faults : List Fault)

def withFaults {κ : Type} (faults : List Fault) (e : Engine (FaultyCatalog κ)) :
    Engine (FaultyCatalog κ) :=
  { e with catalog := { e.catalog with faults } }

namespace Session

variable {κ : Type} {s : Session κ}

/-- The number of runs between taking the guard and giving it back. -/
def holders (s : Session κ) : Nat := s.attempts.countP (·.stage.holdsGuard)

/-- The guard is held just if one run has it, and no two runs have it. -/
def Exclusive (s : Session κ) : Prop := s.holders = s.engine.guard.held.toNat

/-- No run is under way. -/
def Quiet (s : Session κ) : Prop := ∀ a ∈ s.attempts, a.stage.holdsGuard = false

theorem free_of_quiet (h : s.Exclusive) (hq : s.Quiet) : s.engine.guard.held = false := by
  have hzero : s.holders = 0 :=
    List.countP_eq_zero.2 fun a ha => by rw [hq a ha]; exact Bool.false_ne_true
  rw [Exclusive, hzero] at h
  exact Bool.toNat_eq_zero.1 h.symm

theorem held_of_holdsGuard {i : Nat} {a : Attempt} (h : s.Exclusive) (ha : s.attempts[i]? = some a)
    (hholds : a.stage.holdsGuard = true) : s.engine.guard.held = true := by
  have hpos : 0 < s.holders := List.countP_pos_iff.2 ⟨a, List.mem_of_getElem? ha, hholds⟩
  rw [h] at hpos
  exact Bool.toNat_eq_one.1 (Nat.le_antisymm (Bool.toNat_le _) hpos)

variable [CatalogStore κ]

def move (s : Session κ) : Move → Session κ
  | .call r dryRun faults =>
    { s with engine := (runSync r dryRun (s.engine.withFaults faults)).state }
  | .start r dryRun => { s with attempts := s.attempts ++ [⟨r, dryRun, .waiting⟩] }
  | .step i faults =>
    match s.attempts[i]? with
    | none => s
    | some a =>
      let next := Stage.step a.registry a.dryRun (a.stage, s.engine.withFaults faults)
      ⟨next.2, s.attempts.set i { a with stage := next.1 }⟩

def run (e : Engine (FaultyCatalog κ)) (moves : List Move) : Session κ :=
  moves.foldl move ⟨e, []⟩

/-! ### The guard -/

theorem countP_set_add {α : Type} {p : α → Bool} {xs : List α} {i : Nat} {a b : α}
    (h : xs[i]? = some a) : (xs.set i b).countP p + (p a).toNat = xs.countP p + (p b).toNat := by
  induction xs generalizing i with
  | nil => cases h
  | cons x xs ih =>
    cases i with
    | zero =>
      obtain rfl : x = a := Option.some.inj h
      rw [List.set_cons_zero, List.countP_cons, List.countP_cons]
      cases p x <;> cases p b <;> simp
    | succ i =>
      have hrest := ih (show xs[i]? = some a from h)
      rw [List.set_cons_succ, List.countP_cons, List.countP_cons]
      omega

theorem exclusive_move (m : Move) (h : s.Exclusive) : (s.move m).Exclusive := by
  have hheld : ∀ (i : Nat) (a : Attempt), s.attempts[i]? = some a →
      a.stage.holdsGuard = true → s.engine.guard.held = true := fun _ _ => held_of_holdsGuard h
  unfold Exclusive holders at h ⊢
  cases m with
  | call r dryRun faults =>
    show s.attempts.countP _ = _
    rw [h, move, runSync_guard]
    rfl
  | start r dryRun =>
    rw [move, List.countP_append, h]
    rfl
  | step i faults =>
    rw [move]
    cases ha : s.attempts[i]? with
    | none => exact h
    | some a =>
      have hset := countP_set_add (p := fun a => a.stage.holdsGuard) ha
        (b := { a with
          stage := (Stage.step a.registry a.dryRun (a.stage, s.engine.withFaults faults)).1 })
      have hguard : (s.engine.withFaults faults).guard = s.engine.guard := rfl
      have hstep := step_guard a.registry a.dryRun (e := s.engine.withFaults faults) (hheld i a ha)
      dsimp only at hset ⊢
      rw [hguard] at hstep
      omega

theorem exclusive_run (e : Engine (FaultyCatalog κ)) (hfree : e.guard.held = false)
    (moves : List Move) : (run e moves).Exclusive := by
  have hstart : (⟨e, []⟩ : Session κ).Exclusive := by
    show 0 = e.guard.held.toNat
    rw [hfree]
    rfl
  exact List.foldlRecOn moves move hstart fun s hs m _ => exclusive_move m hs

end Session

/-! ### Convergence -/

variable {e : Engine (FaultyCatalog MemoryCatalog)} {before : TextSet}

/-- What a catalog in memory holds without faults determines it. -/
theorem eq_of_onlyCatalog {e' : Engine (FaultyCatalog MemoryCatalog)}
    (h : e.OnlyCatalog ((FaultyCatalog.law [] MemoryCatalog.law).Holds · before) e') :
    e' = { e with catalog := ⟨[], ⟨before⟩⟩ } := by
  obtain ⟨⟨faults, ⟨entries⟩⟩, ⟨hfaults, hentries⟩, rfl⟩ := h
  obtain rfl : faults = [] := hfaults
  obtain rfl : entries = before := hentries
  rfl

theorem not_failed (k : FaultyCatalog MemoryCatalog) (s : TextSet) :
    ¬ (FaultyCatalog.law [] MemoryCatalog.law).Failed k s := by
  rintro ⟨-, ⟨hne, -⟩ | hfalse⟩
  · exact hne rfl
  · exact hfalse

theorem runSync_alone (r : Registry) (dryRun : Bool) (hfree : e.guard.held = false)
    (hcatalog : e.catalog = ⟨[], ⟨before⟩⟩) :
    (runSync r dryRun e).answer = .ok ⟨r.legal \ before, before \ r.legal, dryRun⟩ ∧
      (runSync r dryRun e).state =
        { e with catalog := ⟨[], ⟨if dryRun then before else r.legal⟩⟩ } := by
  have hholds : (FaultyCatalog.law [] MemoryCatalog.law).Holds e.catalog before := by
    rw [hcatalog]
    exact ⟨rfl, rfl⟩
  obtain ⟨hanswer, hstate⟩ := runSync_of_free r dryRun _ not_failed hfree hholds
  exact ⟨hanswer, eq_of_onlyCatalog hstate⟩

theorem planSync_alone (r : Registry) (hcatalog : e.catalog = ⟨[], ⟨before⟩⟩) :
    (planSync r e).answer = .ok ⟨r.legal \ before, before \ r.legal⟩ ∧
      (planSync r e).state = e := by
  have hholds : (FaultyCatalog.law [] MemoryCatalog.law).Holds e.catalog before := by
    rw [hcatalog]
    exact ⟨rfl, rfl⟩
  obtain ⟨_, hanswer, rfl, hstate⟩ := (planSync_ends _ hholds).answers fun _ _ ⟨k, hk, _⟩ =>
    not_failed k _ hk
  refine ⟨hanswer, (eq_of_onlyCatalog hstate).trans ?_⟩
  rw [← hcatalog]

/-- After any session that is quiet again, a synchronisation without faults answers, leaves the
legal set in the catalog, and reports what it changed; a plan and a dry run before it report the
same and change nothing, and every synchronisation after it finds nothing to do. -/
theorem synchronize_converges (grants : GrantStore) (entries : TextSet) (moves : List Move)
    (r : Registry)
    (hquiet : (Session.run (new grants ⟨[], MemoryCatalog.mk entries⟩) moves).Quiet) :
    let e : Engine (FaultyCatalog MemoryCatalog) :=
      (Session.run (new grants ⟨[], ⟨entries⟩⟩) moves).engine.withFaults []
    let before := e.catalog.inner.entries
    let synchronized := (synchronize r e).state
    ((planSync r e).answer = .ok ⟨r.legal \ before, before \ r.legal⟩ ∧
      (planSync r e).state = e) ∧
    ((previewSync r e).answer = .ok ⟨r.legal \ before, before \ r.legal, true⟩ ∧
      (previewSync r e).state = e) ∧
    ((synchronize r e).answer = .ok ⟨r.legal \ before, before \ r.legal, false⟩ ∧
      synchronized = { e with catalog := ⟨[], ⟨r.legal⟩⟩ }) ∧
    ∀ n, let further := (fun t => (synchronize r t).state)^[n] synchronized
      (synchronize r further).answer = .ok ⟨∅, ∅, false⟩ ∧
        (synchronize r further).state = synchronized := by
  intro e before synchronized
  have hfree : e.guard.held = false := by
    have hexclusive := Session.exclusive_run (new grants ⟨[], MemoryCatalog.mk entries⟩) rfl moves
    exact Session.free_of_quiet hexclusive hquiet
  have hcatalog : e.catalog = ⟨[], ⟨before⟩⟩ := rfl
  have hsync : (synchronize r e).answer = _ ∧ synchronized = _ :=
    runSync_alone r false hfree hcatalog
  refine ⟨planSync_alone r hcatalog, runSync_alone r true hfree hcatalog, hsync, fun n => ?_⟩
  -- The synchronised engine is a fixed point of synchronising.
  have hagain :
      (synchronize r synchronized).answer = .ok ⟨r.legal \ r.legal, r.legal \ r.legal, false⟩ ∧
        (synchronize r synchronized).state = synchronized := by
    rw [hsync.2]
    exact runSync_alone r false hfree rfl
  have hfixed : (fun t => (synchronize r t).state)^[n] synchronized = synchronized :=
    Function.iterate_fixed hagain.2 n
  dsimp only
  rw [hfixed, hagain.1, TextSet.sdiff_self]
  exact ⟨rfl, hagain.2⟩

/-- A run breaks off and poisons the guard, a dry run is refused while another run overlaps it, and
that one fails once it has added; the next synchronisation still removes what is stale. -/
theorem stale_removed_after_faults :
    let r : Registry := ⟨[⟨"post", "delete", false, true⟩]⟩
    let moves : List Move := [.call r false [⟨.add, true⟩], .start r false, .step 0 [],
      .call r true [], .step 0 [], .step 0 [], .step 0 [⟨.remove, false⟩], .step 0 []]
    let start : Engine (FaultyCatalog MemoryCatalog) :=
      new .empty ⟨[], ⟨TextSet.ofList ["post:old", "::"]⟩⟩
    let e := (Session.run start moves).engine.withFaults []
    (Session.run start moves).Quiet ∧ e.guard.poisoned = true ∧
      (synchronize r e).answer = .ok ⟨∅, TextSet.ofList ["::", "post:old"], false⟩ := by
  intro r moves start e
  have hquiet : (Session.run start moves).Quiet := by
    unfold Session.Quiet
    decide
  obtain ⟨-, -, ⟨hanswer, -⟩, -⟩ := synchronize_converges .empty
    (TextSet.ofList ["post:old", "::"]) moves r hquiet
  refine ⟨hquiet, by decide, hanswer.trans (congrArg Except.ok ?_)⟩
  decide +kernel

end Warrant.Engine
