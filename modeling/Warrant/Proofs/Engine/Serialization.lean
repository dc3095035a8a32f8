import Mathlib.Data.List.Forall2
import Warrant.Proofs.Engine.Convergence

/-!
# Overlapping synchronisations

Jobs are synchronisations and dry runs on one engine whose steps a schedule brings in any order;
the catalog calls of a job fail as its faults say. A job that finds the guard held is refused. Those
that get it, the admitted ones, answer what they answer when they are done one after the other, in
the order in which they got it, and leave what that leaves (`overlapping_runs_serialize`).

`Serialized` is the invariant behind this: the engine is as the admitted jobs leave it one after the
other, and while the last of them is under way, as the steps of that one lead on from there.
-/

namespace Warrant.Engine

/-! ### Faults stay on -/

section Faults

variable {κ α β : Type} {F G : List Fault} {e : Engine (FaultyCatalog κ)}

theorem withFaults_of_faults (h : e.catalog.faults = F) : e.withFaults F = e := by
  subst h
  rfl

def KeepsFaults (c : Call (FaultyCatalog κ) (Failure StoreError) α) : Prop :=
  ∀ k, (c k).state.faults = k.faults

theorem keepsFaults_guarded (call : CatalogCall) (c : Call κ (Failure StoreError) α) :
    KeepsFaults (FaultyCatalog.guarded call c) := by
  intro k
  unfold FaultyCatalog.guarded
  split
  · rfl
  · rfl

theorem keepsFaults_pure (a : α) :
    KeepsFaults (pure a : Call (FaultyCatalog κ) (Failure StoreError) α) := fun _ => rfl

theorem keepsFaults_emit (events : List Event) :
    KeepsFaults (Call.emit events : Call (FaultyCatalog κ) (Failure StoreError) Unit) :=
  fun _ => rfl

theorem KeepsFaults.bind {c : Call (FaultyCatalog κ) (Failure StoreError) α}
    {f : α → Call (FaultyCatalog κ) (Failure StoreError) β} (h : KeepsFaults c)
    (hf : ∀ a, KeepsFaults (f a)) : KeepsFaults (c >>= f) :=
  Call.Keeps.bind h hf

theorem after_state {out : Outcome (Engine κ) (Failure EngineError) α} {next : α → Stage} :
    (Stage.after out next).2 = out.state := by
  unfold Stage.after
  split
  · rfl
  · rfl

variable [CatalogStore κ] (d : Delta)

theorem keepsFaults_addBatch : KeepsFaults (κ := κ) d.addBatch := by
  unfold Delta.addBatch
  split
  · exact keepsFaults_pure _
  · exact (keepsFaults_guarded _ _).bind fun _ => keepsFaults_emit _

theorem keepsFaults_removeBatch : KeepsFaults (κ := κ) d.removeBatch := by
  unfold Delta.removeBatch
  split
  · exact keepsFaults_pure _
  · exact (keepsFaults_guarded _ _).bind fun _ => keepsFaults_emit _

theorem step_faults (r : Registry) (dryRun : Bool) (stage : Stage) :
    (Stage.step r dryRun (stage, e)).2.catalog.faults = e.catalog.faults := by
  cases stage with
  | waiting =>
    cases hheld : e.guard.held with
    | true => rw [Stage.step, enter_of_held hheld]
    | false =>
      rw [Stage.step, enter_of_free hheld]
      rfl
  | reading =>
    rw [Stage.step, after_state, difference, Call.state_bind_pure]
    exact keepsFaults_guarded .load CatalogStore.load e.catalog
  | adding d =>
    rw [Stage.step, after_state]
    exact keepsFaults_addBatch d e.catalog
  | removing d =>
    rw [Stage.step, after_state]
    exact keepsFaults_removeBatch d e.catalog
  | ending answer => rfl
  | returned answer => rfl

end Faults

/-! ### Where a run alone ends -/

section Alone

variable {κ : Type} [CatalogStore κ] {r : Registry} {dryRun : Bool} {e t t' : Engine κ}
  {a : Stage × Engine κ} {answer answer' : Except (Failure EngineError) Report}

theorem Stage.Reaches.unique (h : Reaches r dryRun a (.returned answer, t))
    (h' : Reaches r dryRun a (.returned answer', t')) : answer = answer' ∧ t = t' := by
  obtain ⟨m, hm⟩ := h
  obtain ⟨n, hn⟩ := h'
  have hfixed : ∀ (k : Nat) (b : Except (Failure EngineError) Report) (u : Engine κ),
      (Stage.step r dryRun)^[k] (.returned b, u) = (.returned b, u) :=
    fun k b u => Function.iterate_fixed rfl k
  have hsame := Function.iterate_add_apply (Stage.step r dryRun) m n a
  rw [Nat.add_comm, Function.iterate_add_apply, hm, hn, hfixed, hfixed] at hsame
  cases hsame
  exact ⟨rfl, rfl⟩

theorem reaches_returned :
    Stage.Reaches r dryRun (.waiting, e)
      (.returned (runSync r dryRun e).answer, (runSync r dryRun e).state) := by
  have hends : (runSync r dryRun).Ends e _ _ := reaches_runSync
  unfold Call.Ends at hends
  cases ha : (runSync r dryRun e).answer with
  | ok report => rw [ha] at hends; exact hends
  | error f => rw [ha] at hends; exact hends

end Alone

/-! ### Jobs and schedules -/

/-- A synchronisation or a dry run, and which of its catalog calls fail. A run makes each of them at
most once, so these faults say how each of its steps ends. -/
structure Job where
  registry : Registry
  dryRun : Bool
  faults : List Fault

variable {κ : Type}

namespace Session

def opened (e : Engine (FaultyCatalog κ)) (jobs : List Job) : Session κ :=
  ⟨e, jobs.map fun j => ⟨j.registry, j.dryRun, .waiting⟩⟩

def stage? (s : Session κ) (i : Nat) : Option Stage := s.attempts[i]?.map (·.stage)

/-- Whether the next step of a job takes the guard. -/
def admits (s : Session κ) (i : Nat) : Bool :=
  match s.stage? i with
  | some .waiting => !s.engine.guard.held
  | _ => false

theorem held_of_stage {s : Session κ} {i : Nat} {stage : Stage} (h : s.Exclusive)
    (hstage : s.stage? i = some stage) (hholds : stage.holdsGuard = true) :
    s.engine.guard.held = true := by
  obtain ⟨a, ha, rfl⟩ := Option.map_eq_some_iff.1 hstage
  exact held_of_holdsGuard h ha hholds

variable [CatalogStore κ] (jobs : List Job)

/-- One job takes a step, under its faults. -/
def advance (s : Session κ) (i : Nat) : Session κ :=
  match jobs[i]? with
  | some j => s.move (.step i j.faults)
  | none => s

def follow (s : Session κ) (schedule : List Nat) : Session κ := schedule.foldl (advance jobs) s

/-- The jobs that take the guard while a schedule is followed, in the order in which they do. -/
def admitted (s : Session κ) : List Nat → List Nat
  | [] => []
  | i :: rest => (if s.admits i then [i] else []) ++ admitted (s.advance jobs i) rest

end Session

variable [CatalogStore κ]

/-- What jobs answer, and how they leave the engine, if each begins when the one before has
returned. -/
def inTurn : Engine (FaultyCatalog κ) → List Job →
    List (Except (Failure EngineError) Report) × Engine (FaultyCatalog κ)
  | e, [] => ([], e)
  | e, j :: rest =>
    let out := runSync j.registry j.dryRun (e.withFaults j.faults)
    (out.answer :: (inTurn out.state rest).1, (inTurn out.state rest).2)

theorem inTurn_concat (e : Engine (FaultyCatalog κ)) (jobs : List Job) (j : Job) :
    let out := runSync j.registry j.dryRun ((inTurn e jobs).2.withFaults j.faults)
    inTurn e (jobs ++ [j]) = ((inTurn e jobs).1 ++ [out.answer], out.state) := by
  induction jobs generalizing e with
  | nil => rfl
  | cons k rest ih =>
    rw [List.cons_append]
    show inTurn e (k :: (rest ++ [j])) = _
    rw [inTurn, ih]
    rfl

/-! ### The invariant -/

namespace Session

variable {jobs : List Job} {s : Session κ} {e : Engine (FaultyCatalog κ)} {i : Nat} {j : Job}
  {stage : Stage} {order done : List Nat}

def serial (jobs : List Job) (e : Engine (FaultyCatalog κ)) (order : List Nat) :
    List (Except (Failure EngineError) Report) × Engine (FaultyCatalog κ) :=
  inTurn e (order.filterMap (jobs[·]?))

theorem serial_concat (hj : jobs[i]? = some j) :
    let out := runSync j.registry j.dryRun ((serial jobs e done).2.withFaults j.faults)
    serial jobs e (done ++ [i]) = ((serial jobs e done).1 ++ [out.answer], out.state) := by
  unfold serial
  rw [List.filterMap_append, List.filterMap_cons_some hj]
  exact inTurn_concat e _ j

def Requested (jobs : List Job) (s : Session κ) : Prop :=
  ∀ i : Nat, s.attempts[i]?.map (fun a : Attempt => (a.registry, a.dryRun)) =
    jobs[i]?.map fun j : Job => (j.registry, j.dryRun)

/-- The jobs have returned what they answer when they are done one after the other. -/
def Answered (jobs : List Job) (e : Engine (FaultyCatalog κ)) (s : Session κ)
    (order : List Nat) : Prop :=
  order.map s.stage? = (serial jobs e order).1.map fun answer => some (.returned answer)

/-- All admitted jobs have returned. -/
def Settled (jobs : List Job) (e : Engine (FaultyCatalog κ)) (s : Session κ)
    (order : List Nat) : Prop :=
  Answered jobs e s order ∧ s.engine.withFaults [] = (serial jobs e order).2.withFaults []

/-- One more job was admitted and has not returned. Its steps led from where the others left the
engine to where it is. -/
def UnderWay (jobs : List Job) (e : Engine (FaultyCatalog κ)) (s : Session κ)
    (done : List Nat) (i : Nat) : Prop :=
  Answered jobs e s done ∧ ∃ j stage, jobs[i]? = some j ∧ s.stage? i = some stage ∧
    stage.holdsGuard = true ∧
    Stage.Reaches j.registry j.dryRun (.waiting, (serial jobs e done).2.withFaults j.faults)
      (stage, s.engine.withFaults j.faults)

/-- What holds of jobs on an engine throughout, where those of `order` were admitted. -/
structure Serialized (jobs : List Job) (e : Engine (FaultyCatalog κ)) (s : Session κ)
    (order : List Nat) : Prop where
  exclusive : s.Exclusive
  requested : Requested jobs s
  nodup : order.Nodup
  others : ∀ i stage, s.stage? i = some stage → i ∉ order →
    stage = .waiting ∨ stage = .returned (.error (.error .syncInProgress))
  progress : Settled jobs e s order ∨ ∃ done i, order = done ++ [i] ∧ UnderWay jobs e s done i

theorem Answered.returned (h : Answered jobs e s order) (hi : i ∈ order) :
    ∃ answer, s.stage? i = some (.returned answer) := by
  have hmem : s.stage? i ∈ order.map s.stage? := List.mem_map_of_mem hi
  rw [h] at hmem
  obtain ⟨answer, -, hanswer⟩ := List.mem_map.1 hmem
  exact ⟨answer, hanswer.symm⟩

theorem Answered.congr {s' : Session κ} (h : Answered jobs e s order)
    (hstages : ∀ i ∈ order, s'.stage? i = s.stage? i) : Answered jobs e s' order :=
  (List.map_congr_left hstages).trans h

/-! ### One step -/

theorem advance_of_some (h : Requested jobs s) (hj : jobs[i]? = some j)
    (hstage : s.stage? i = some stage) :
    let next := Stage.step j.registry j.dryRun (stage, s.engine.withFaults j.faults)
    (s.advance jobs i).engine = next.2 ∧ (s.advance jobs i).stage? i = some next.1 ∧
      ∀ k, k ≠ i → (s.advance jobs i).stage? k = s.stage? k := by
  obtain ⟨a, ha, rfl⟩ := Option.map_eq_some_iff.1 hstage
  have hrequest := h i
  rw [ha, hj] at hrequest
  obtain ⟨hregistry, hdry⟩ := Prod.mk.inj (Option.some.inj hrequest)
  have hlt : i < s.attempts.length := (List.getElem?_eq_some_iff.1 ha).1
  intro next
  have hnext : Stage.step a.registry a.dryRun (a.stage, s.engine.withFaults j.faults) = next := by
    rw [hregistry, hdry]
  have hadvance : s.advance jobs i =
      ⟨next.2, s.attempts.set i { a with stage := next.1 }⟩ := by
    rw [advance, hj]
    dsimp only [move]
    rw [ha]
    dsimp only
    rw [hnext]
  rw [hadvance]
  refine ⟨rfl, ?_, fun k hk => ?_⟩
  · unfold stage?
    rw [List.getElem?_set_self hlt]
    rfl
  · unfold stage?
    rw [List.getElem?_set_ne (Ne.symm hk)]

theorem exclusive_advance (h : s.Exclusive) : (s.advance jobs i).Exclusive := by
  unfold advance
  split
  · exact exclusive_move _ h
  · exact h

theorem requested_advance (h : Requested jobs s) : Requested jobs (s.advance jobs i) := by
  unfold advance
  split
  · rename_i j hj
    rw [move]
    split
    · exact h
    · rename_i a ha
      dsimp only
      intro k
      rw [← h k]
      by_cases hk : i = k
      · subst hk
        have hlt : i < s.attempts.length := (List.getElem?_eq_some_iff.1 ha).1
        rw [List.getElem?_set_self hlt, ha]
        rfl
      · rw [List.getElem?_set_ne hk]
  · exact h

theorem step_of_holdsGuard (r : Registry) (dryRun : Bool) (t : Engine (FaultyCatalog κ))
    (h : stage.holdsGuard = true) :
    (Stage.step r dryRun (stage, t)).1.holdsGuard = true ∨
      ∃ answer, (Stage.step r dryRun (stage, t)).1 = .returned answer := by
  have hafter : ∀ {α : Type} (out : Outcome (Engine (FaultyCatalog κ)) (Failure EngineError) α)
      (next : α → Stage), (∀ a, (next a).holdsGuard = true) →
      (Stage.after out next).1.holdsGuard = true := by
    intro α out next hnext
    unfold Stage.after
    split
    · exact hnext _
    · rfl
  cases stage with
  | waiting => cases h
  | returned answer => cases h
  | reading =>
    refine .inl (hafter _ _ fun d => ?_)
    split
    · rfl
    · rfl
  | adding d => exact .inl (hafter _ _ fun _ => rfl)
  | removing d => exact .inl (hafter _ _ fun _ => rfl)
  | ending answer => exact .inr ⟨answer, rfl⟩

namespace Serialized

variable {s' : Session κ}

theorem exists_stage (h : Serialized jobs e s order) (hj : jobs[i]? = some j) :
    ∃ stage, s.stage? i = some stage := by
  have hrequest := h.requested i
  rw [hj] at hrequest
  obtain ⟨a, ha, -⟩ := Option.map_eq_some_iff.1 hrequest
  exact ⟨a.stage, by rw [stage?, ha]; rfl⟩

theorem unmoved (h : Serialized jobs e s order)
    (hengine : ∀ faults, (s.advance jobs i).engine.withFaults faults = s.engine.withFaults faults)
    (hstages : ∀ k ∈ order, (s.advance jobs i).stage? k = s.stage? k)
    (hothers : ∀ k stage, (s.advance jobs i).stage? k = some stage → k ∉ order →
      stage = .waiting ∨ stage = .returned (.error (.error .syncInProgress))) :
    Serialized jobs e (s.advance jobs i) order where
  exclusive := exclusive_advance h.exclusive
  requested := requested_advance h.requested
  nodup := h.nodup
  others := hothers
  progress := by
    rcases h.progress with ⟨hanswered, hleft⟩ |
      ⟨done, k, rfl, hanswered, j, stage, hj, hk, hp, hreach⟩
    · exact .inl ⟨hanswered.congr hstages, (hengine []).trans hleft⟩
    · refine .inr ⟨done, k, rfl, hanswered.congr fun m hm => ?_, j, stage, hj, ?_, hp, ?_⟩
      · exact hstages m (List.mem_append_left _ hm)
      · rw [hstages k (List.mem_append_right _ List.mem_cons_self)]
        exact hk
      · rw [hengine]
        exact hreach

theorem not_waiting (h : Serialized jobs e s order) (hi : i ∈ order) :
    s.stage? i ≠ some .waiting := by
  intro hwaiting
  have hreturned : ∀ {done}, Answered jobs e s done → i ∉ done := by
    intro done hanswered hdone
    obtain ⟨answer, hanswer⟩ := hanswered.returned hdone
    rw [hwaiting] at hanswer
    cases hanswer
  rcases h.progress with ⟨hanswered, -⟩ | ⟨done, k, rfl, hanswered, j, stage, -, hk, hp, -⟩
  · exact hreturned hanswered hi
  · rcases List.mem_append.1 hi with hdone | hlast
    · exact hreturned hanswered hdone
    · rw [List.mem_singleton.1 hlast, hk] at hwaiting
      cases hwaiting
      cases hp

theorem settled_of_free (h : Serialized jobs e s order) (hfree : s.engine.guard.held = false) :
    Settled jobs e s order := by
  rcases h.progress with hsettled | ⟨done, k, -, -, j, stage, -, hk, hp, -⟩
  · exact hsettled
  · rw [held_of_stage h.exclusive hk hp] at hfree
    cases hfree

/-- A job that finds the guard free is admitted. -/
theorem accept (h : Serialized jobs e s order) (hj : jobs[i]? = some j)
    (hstage : s.stage? i = some .waiting) (hfree : s.engine.guard.held = false) :
    Serialized jobs e (s.advance jobs i) (order ++ [i]) := by
  obtain ⟨hanswered, hleft⟩ := h.settled_of_free hfree
  obtain ⟨hengine, hnext, hrest⟩ := advance_of_some h.requested hj hstage
  have hstart : (s.engine.withFaults j.faults).guard.held = false := hfree
  rw [Stage.step, enter_of_free hstart] at hengine hnext
  have hnew : i ∉ order := fun hi => h.not_waiting hi hstage
  refine ⟨exclusive_advance h.exclusive, requested_advance h.requested, ?_, ?_, .inr ⟨order, i, rfl,
    hanswered.congr ?_, j, .reading, hj, hnext, rfl, ?_⟩⟩
  · exact List.nodup_append.2 ⟨h.nodup, List.nodup_cons.2 ⟨List.not_mem_nil, .nil⟩,
      fun k hk m hm heq => hnew (List.mem_singleton.1 hm ▸ heq ▸ hk)⟩
  · intro k stage hk hnot
    obtain ⟨hkorder, hki⟩ := not_or.1 (List.mem_append.not.1 hnot)
    rw [hrest k (fun heq => hki (List.mem_singleton.2 heq))] at hk
    exact h.others k stage hk hkorder
  · intro k hk
    exact hrest k fun heq => hnew (heq ▸ hk)
  · have hfaults : (serial jobs e order).2.withFaults j.faults = s.engine.withFaults j.faults :=
      congrArg (fun t => t.withFaults j.faults) hleft.symm
    have hstep : Stage.Reaches j.registry j.dryRun (.waiting, s.engine.withFaults j.faults) _ :=
      .step _
    rw [Stage.step, enter_of_free hstart] at hstep
    rw [hengine, hfaults]
    exact hstep

/-- A job that finds the guard held is refused. -/
theorem refuse (h : Serialized jobs e s order) (hj : jobs[i]? = some j)
    (hstage : s.stage? i = some .waiting) (hheld : s.engine.guard.held = true) :
    Serialized jobs e (s.advance jobs i) order := by
  obtain ⟨hengine, hnext, hrest⟩ := advance_of_some h.requested hj hstage
  have hstart : (s.engine.withFaults j.faults).guard.held = true := hheld
  rw [Stage.step, enter_of_held hstart] at hengine hnext
  refine h.unmoved (fun faults => by rw [hengine]; rfl) (fun k hk => hrest k ?_)
    fun k stage hk hnot => ?_
  · rintro rfl
    exact h.not_waiting hk hstage
  · by_cases hki : k = i
    · rw [hki, hnext] at hk
      exact .inr (Option.some.inj hk).symm
    · rw [hrest k hki] at hk
      exact h.others k stage hk hnot

theorem idle (h : Serialized jobs e s order) (hj : jobs[i]? = some j)
    {answer : Except (Failure EngineError) Report} (hstage : s.stage? i = some (.returned answer)) :
    Serialized jobs e (s.advance jobs i) order := by
  obtain ⟨hengine, hnext, hrest⟩ := advance_of_some h.requested hj hstage
  have hsame : ∀ k, (s.advance jobs i).stage? k = s.stage? k := by
    intro k
    by_cases hki : k = i
    · rw [hki, hstage]
      exact hnext
    · exact hrest k hki
  refine h.unmoved (fun faults => by rw [hengine]; rfl) (fun k _ => hsame k) fun k stage hk => ?_
  rw [hsame] at hk
  exact h.others k stage hk

/-- The job that holds the guard is the last admitted one. -/
theorem underWay_of_holdsGuard (h : Serialized jobs e s order) (hstage : s.stage? i = some stage)
    (hp : stage.holdsGuard = true) : ∃ done, order = done ++ [i] ∧ UnderWay jobs e s done i := by
  have hreturned : ∀ {done}, Answered jobs e s done → i ∉ done := by
    intro done hanswered hdone
    obtain ⟨answer, hanswer⟩ := hanswered.returned hdone
    rw [hstage] at hanswer
    cases hanswer
    cases hp
  have hi : i ∈ order := by
    by_contra hnot
    rcases h.others i stage hstage hnot with rfl | rfl
    · cases hp
    · cases hp
  rcases h.progress with ⟨hanswered, -⟩ | ⟨done, k, rfl, hunder⟩
  · exact absurd hi (hreturned hanswered)
  · rcases List.mem_append.1 hi with hdone | hlast
    · exact absurd hdone (hreturned hunder.1)
    · obtain rfl := List.mem_singleton.1 hlast
      exact ⟨done, rfl, hunder⟩

/-- The job under way goes on; once it returns, it has done what it does alone. -/
theorem proceed (h : Serialized jobs e s order) (hj : jobs[i]? = some j)
    (hstage : s.stage? i = some stage) (hp : stage.holdsGuard = true) :
    Serialized jobs e (s.advance jobs i) order := by
  obtain ⟨done, rfl, hanswered, j', stage', hj', hstage', -, hreach⟩ :=
    h.underWay_of_holdsGuard hstage hp
  cases hj.symm.trans hj'
  cases hstage.symm.trans hstage'
  obtain ⟨hengine, hnext, hrest⟩ := advance_of_some h.requested hj hstage
  have hfaults : (s.advance jobs i).engine.withFaults j.faults = (s.advance jobs i).engine := by
    rw [hengine]
    exact withFaults_of_faults (step_faults _ _ _)
  have hgone := hreach.trans (Stage.Reaches.step _)
  have hdone : i ∉ done := fun hi =>
    (List.nodup_append.1 h.nodup).2.2 i hi i List.mem_cons_self rfl
  have hanswered' : Answered jobs e (s.advance jobs i) done :=
    hanswered.congr fun k hk => hrest k fun heq => hdone (heq ▸ hk)
  refine ⟨exclusive_advance h.exclusive, requested_advance h.requested, h.nodup, ?_, ?_⟩
  · intro k st hk hnot
    have hki : k ≠ i := fun heq => hnot (List.mem_append_right _ (List.mem_singleton.2 heq))
    rw [hrest k hki] at hk
    exact h.others k st hk hnot
  generalize hout : Stage.step j.registry j.dryRun (stage, s.engine.withFaults j.faults) = next
    at hengine hnext hgone
  have hcases := step_of_holdsGuard j.registry j.dryRun (s.engine.withFaults j.faults) hp
  rw [hout] at hcases
  obtain ⟨st, t⟩ := next
  dsimp only at hengine hnext hcases
  rcases hcases with hholds | ⟨answer, rfl⟩
  · refine .inr ⟨done, i, rfl, hanswered', j, st, hj, hnext, hholds, ?_⟩
    rw [hfaults, hengine]
    exact hgone
  · -- The run alone comes to the same end, so this is what the job does in its turn.
    obtain ⟨rfl, rfl⟩ := hgone.unique reaches_returned
    refine .inl ⟨?_, ?_⟩
    · unfold Answered at hanswered' ⊢
      rw [serial_concat hj, List.map_append, List.map_append, hanswered']
      exact congrArg _ (congrArg (· :: []) hnext)
    · rw [serial_concat hj, hengine]

/-- Whatever step is next, the invariant stays; a job that takes the guard is the next admitted. -/
theorem advanced (h : Serialized jobs e s order) (i : Nat) :
    Serialized jobs e (s.advance jobs i) (order ++ if s.admits i then [i] else []) := by
  cases hj : jobs[i]? with
  | none =>
    have hsame : s.advance jobs i = s := by rw [advance, hj]
    have hnone : s.admits i = false := by
      have hrequest := h.requested i
      rw [hj] at hrequest
      rw [admits, stage?, Option.map_eq_none_iff.1 hrequest]
      rfl
    rw [hsame, hnone]
    simpa using h
  | some j =>
    obtain ⟨stage, hstage⟩ := h.exists_stage hj
    have hquiet : stage ≠ .waiting → s.admits i = false := by
      intro hne
      rw [admits, hstage]
      cases stage with
      | waiting => exact absurd rfl hne
      | _ => rfl
    cases stage with
    | waiting =>
      cases hheld : s.engine.guard.held with
      | false =>
        have hadmits : s.admits i = true := by rw [admits, hstage]; simp [hheld]
        rw [hadmits, if_pos rfl]
        exact h.accept hj hstage hheld
      | true =>
        have hadmits : s.admits i = false := by rw [admits, hstage]; simp [hheld]
        rw [hadmits]
        simpa using h.refuse hj hstage hheld
    | returned answer =>
      rw [hquiet nofun]
      simpa using h.idle hj hstage
    | _ =>
      rw [hquiet nofun]
      simpa using h.proceed hj hstage rfl

theorem answer_alone (h : Serialized jobs e s order) (n i : Nat)
    (answer : Except (Failure EngineError) Report) (hn : order[n]? = some i)
    (hstage : s.stage? i = some (.returned answer)) :
    (serial jobs e order).1[n]? = some answer := by
  have hturn : ∀ {done}, Answered jobs e s done → done[n]? = some i →
      (serial jobs e done).1[n]? = some answer := by
    intro done hanswered hdone
    have hget : (done.map s.stage?)[n]? = some (some (.returned answer)) := by
      rw [List.getElem?_map, hdone, Option.map_some, hstage]
    rw [hanswered, List.getElem?_map] at hget
    obtain ⟨answer', hanswer', heq⟩ := Option.map_eq_some_iff.1 hget
    cases heq
    exact hanswer'
  rcases h.progress with ⟨hanswered, -⟩ | ⟨done, k, rfl, hanswered, j, stage, hj, hk, hp, -⟩
  · exact hturn hanswered hn
  · have hdone : done[n]? = some i := by
      rw [List.getElem?_append] at hn
      split at hn
      · exact hn
      · have hlast := List.mem_of_getElem? hn
        rw [List.mem_singleton.1 hlast, hk] at hstage
        cases hstage
        cases hp
    rw [serial_concat hj]
    exact List.getElem?_append_left (List.getElem?_eq_some_iff.1 (hturn hanswered hdone)).1 ▸
      hturn hanswered hdone

theorem opened (hfree : e.guard.held = false) :
    Serialized jobs e (Session.opened e jobs) [] where
  exclusive := by
    have hnone : (Session.opened e jobs).holders = 0 :=
      List.countP_eq_zero.2 fun a ha => by
        obtain ⟨j, -, rfl⟩ := List.mem_map.1 ha
        exact Bool.false_ne_true
    rw [Exclusive, hnone]
    exact (congrArg Bool.toNat hfree).symm
  requested i := by
    unfold Session.opened
    rw [List.getElem?_map, Option.map_map]
    rfl
  nodup := .nil
  others i stage hi _ := by
    unfold Session.opened stage? at hi
    obtain ⟨a, ha, rfl⟩ := Option.map_eq_some_iff.1 hi
    obtain ⟨j, -, rfl⟩ := List.mem_map.1 (List.mem_of_getElem? ha)
    exact .inl rfl
  progress := .inl ⟨rfl, rfl⟩

theorem followed (h : Serialized jobs e s order) (schedule : List Nat) :
    Serialized jobs e (s.follow jobs schedule) (order ++ s.admitted jobs schedule) := by
  induction schedule generalizing s order with
  | nil =>
    rw [admitted, List.append_nil]
    exact h
  | cons i rest ih =>
    rw [admitted, ← List.append_assoc]
    exact ih (h.advanced i)

end Serialized

end Session

/-! ### A call while another run reads the catalog -/

section Around

variable {κ : Type} [CatalogStore κ] {e : Engine κ}

/-- A run that begins while a synchronisation is held at its reading of the catalog is refused, and
the synchronisation comes to what it comes to alone. -/
theorem synchronizeAround_runSync (hfree : e.guard.held = false) (r r' : Registry) (dryRun : Bool) :
    (synchronizeAround r (runSync r' dryRun) e).answer =
        ((synchronize r).reported e).answer.map (fun outer => (.error .syncInProgress, outer)) ∧
      (synchronizeAround r (runSync r' dryRun) e).state = (synchronize r e).state := by
  have hrefused : (runSync r' dryRun).reported e.entered =
      (⟨.ok (.error .syncInProgress), e.entered, []⟩ :
        Outcome (Engine κ) (Failure EngineError) (Except EngineError Report)) := by
    rw [Call.reported, runSync_of_held rfl]
  generalize (runSync r' dryRun : Op κ Report) = inner at hrefused ⊢
  unfold synchronize runSync synchronizeAround
  rw [Call.reported]
  rw [Call.bind_of_ok (enter_of_free hfree), Call.bind_of_ok (enter_of_free hfree)]
  unfold leaving
  dsimp only
  rw [Call.bind_of_ok (Call.emit_apply _ _), Call.bind_of_ok (Call.emit_apply _ _),
    Call.bind_of_ok hrefused, Call.bind_apply]
  unfold Call.reported
  generalize carryOut r false e.entered = out
  obtain ⟨answer, t, events⟩ := out
  cases answer with
  | ok report => exact ⟨rfl, rfl⟩
  | error f =>
    cases f with
    | error reason => exact ⟨rfl, rfl⟩
    | brokenOff => exact ⟨rfl, rfl⟩

end Around

/-! ### Serializability -/

/-- However the steps of jobs are interleaved: the guard is held just while one job has it. A job
that finds it held is refused, whatever is in the catalog, which stays as it is; so are all jobs
that are not admitted. The admitted ones, and the engine once none is under way, come to what they
come to alone in the order in which they took the guard. A run that begins while a synchronisation
is held at its reading of the catalog is refused and has no effect on it. -/
theorem overlapping_runs_serialize (e : Engine (FaultyCatalog κ)) (hfree : e.guard.held = false)
    (jobs : List Job) (schedule : List Nat) :
    let s := (Session.opened e jobs).follow jobs schedule
    let order := (Session.opened e jobs).admitted jobs schedule
    let alone := inTurn e (order.filterMap (jobs[·]?))
    let refusal : Except (Failure EngineError) Report := .error (.error .syncInProgress)
    s.Exclusive ∧
    (s.engine.guard.held = true → ∀ r dryRun (k : FaultyCatalog κ),
      Stage.step r dryRun (.waiting, { s.engine with catalog := k }) =
        (.returned refusal, { s.engine with catalog := k })) ∧
    (∀ i stage, s.stage? i = some stage → i ∉ order →
      stage = .waiting ∨ stage = .returned refusal) ∧
    order.Nodup ∧
    (∀ (n i : Nat) answer, order[n]? = some i → s.stage? i = some (.returned answer) →
      alone.1[n]? = some answer) ∧
    (s.Quiet → (∀ i ∈ order, ∃ answer, s.stage? i = some (.returned answer)) ∧
      s.engine.withFaults [] = alone.2.withFaults []) ∧
    ∀ r r' dryRun,
      (synchronizeAround r (runSync r' dryRun) e).answer =
          ((synchronize r).reported e).answer.map (fun outer => (.error .syncInProgress, outer)) ∧
        (synchronizeAround r (runSync r' dryRun) e).state = (synchronize r e).state := by
  intro s order alone refusal
  have h : Session.Serialized jobs e s order := (Session.Serialized.opened hfree).followed schedule
  refine ⟨h.exclusive, ?_, h.others, h.nodup, ?_, fun hquiet => ?_,
    synchronizeAround_runSync hfree⟩
  · intro hheld r dryRun k
    rw [Stage.step, enter_of_held (e := { s.engine with catalog := k }) hheld]
  · exact h.answer_alone
  · have hsettled := h.settled_of_free (Session.free_of_quiet h.exclusive hquiet)
    exact ⟨fun i hi => hsettled.1.returned hi, hsettled.2⟩

/-- A synchronisation, overlapped by a dry run that is refused, and after it one whose removal
breaks off once the addition was made. -/
theorem overlapping_dry_run_refused :
    let r : Registry := ⟨[.restricted "post" "delete"]⟩
    let jobs : List Job := [⟨r, false, []⟩, ⟨r, true, []⟩, ⟨.empty, false, [⟨.remove, true⟩]⟩]
    let schedule := [0, 1, 0, 0, 0, 0, 2, 2, 2, 1, 2, 2]
    let start : Engine (FaultyCatalog MemoryCatalog) :=
      new .empty ⟨[], ⟨TextSet.ofList ["post:old"]⟩⟩
    let s := (Session.opened start jobs).follow jobs schedule
    let alone := inTurn start [⟨r, false, []⟩, ⟨.empty, false, [⟨.remove, true⟩]⟩]
    (Session.opened start jobs).admitted jobs schedule = [0, 2] ∧ s.Quiet ∧
      alone.1 = [.ok ⟨r.legal, TextSet.ofList ["post:old"], false⟩, .error .brokenOff] ∧
      (∀ i ∈ [0, 2], ∃ answer, s.stage? i = some (.returned answer)) ∧
      s.engine.withFaults [] = alone.2.withFaults [] := by
  intro r jobs schedule start s alone
  have horder : (Session.opened start jobs).admitted jobs schedule = [0, 2] := by decide +kernel
  have hquiet : s.Quiet := by
    unfold Session.Quiet
    decide +kernel
  have hanswers : alone.1 =
      [.ok ⟨r.legal, TextSet.ofList ["post:old"], false⟩, .error .brokenOff] := by decide +kernel
  obtain ⟨-, -, -, -, -, hend, -⟩ := overlapping_runs_serialize start rfl jobs schedule
  rw [horder] at hend
  exact ⟨horder, hquiet, hanswers, hend hquiet⟩

end Warrant.Engine
