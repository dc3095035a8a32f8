import Warrant.Proofs.Catalog.Reading
import Warrant.Proofs.Engine.Administration

/-!
# The log as a trail of the grants

An engine records each grant that it gives or takes, at the level of information, with the text
that names the principal. Where grants are only given and taken one by one, the log alone tells what
everybody holds in the end (`trail_is_faithful`): each line of the trail changes what is held, a
call leaves one just if it answers that it changed something, and no two principals are named by one
text.
-/

namespace Warrant

/-! ### Names -/

/-- The text that names a principal names no other, whatever quotes there are in its name. -/
theorem Principal.describe_inj {p q : Principal} : p.describe = q.describe ↔ p = q := by
  refine ⟨fun h => ?_, fun h => h ▸ rfl⟩
  -- The first letter tells a user from a role.
  have hhead := congrArg (fun text => text.toList.head?) h
  cases p with
  | user a =>
    cases q with
    | user b =>
      exact congrArg user ((String.append_right_inj _).1 ((String.append_left_inj _).1 h))
    | role b => simp [describe] at hhead
  | role a =>
    cases q with
    | user b => simp [describe] at hhead
    | role b =>
      exact congrArg role ((String.append_right_inj _).1 ((String.append_left_inj _).1 h))

/-! ### Reading a log -/

/-- What is kept of an event in a log. -/
structure LogLine where
  level : Level
  message : String
  fields : List (String × FieldValue)

def Event.line (e : Event) : LogLine := ⟨e.level, e.message, e.fields⟩

/-- What a line of the trail says: whether a grant was given or taken, whose it is by the text that
names the principal, and the grant. -/
structure TrailEntry where
  given : Bool
  principal : String
  capability : String
  deriving DecidableEq

namespace LogLine

def text? (l : LogLine) (name : String) : Option String :=
  match l.fields.lookup name with
  | some (.text value) => some value
  | _ => none

def given? (message : String) : Option Bool :=
  if message = "engine: capability assigned" then some true
  else if message = "engine: capability revoked" then some false
  else none

/-- What a line says if it belongs to the trail. -/
def entry? (l : LogLine) : Option TrailEntry := do
  guard (l.level = .info)
  let given ← given? l.message
  return ⟨given, ← l.text? "principal", ← l.text? "capability"⟩

end LogLine

/-- What everybody holds after an entry, for the principal that the text names. -/
def TrailEntry.replay (held : Principal → TextSet) (t : TrailEntry) (p : Principal) : TextSet :=
  if p.describe = t.principal then
    if t.given then (held p).insert t.capability else (held p).erase t.capability
  else held p

/-- What everybody holds after a line; one that does not belong to the trail is passed over. -/
def LogLine.replay (held : Principal → TextSet) (l : LogLine) : Principal → TextSet :=
  match l.entry? with
  | some t => t.replay held
  | none => held

/-- Each line of the trail changes what is held when its turn comes. -/
def EachChanges (held : Principal → TextSet) : List LogLine → Prop
  | [] => True
  | l :: ls => (l.entry?.isSome → l.replay held ≠ held) ∧ EachChanges (l.replay held) ls

theorem eachChanges_append {held : Principal → TextSet} {ls ls' : List LogLine} :
    EachChanges held (ls ++ ls') ↔
      EachChanges held ls ∧ EachChanges (ls.foldl LogLine.replay held) ls' := by
  induction ls generalizing held with
  | nil => exact (and_iff_right trivial).symm
  | cons l ls ih =>
    rw [List.cons_append, EachChanges, EachChanges, ih, and_assoc]
    rfl

theorem LogLine.replay_of_entry {held : Principal → TextSet} {l : LogLine} {t : TrailEntry}
    (h : l.entry? = some t) : l.replay held = t.replay held := by
  unfold LogLine.replay
  rw [h]

/-! ### What an entry changes -/

section

variable {held : Principal → TextSet} {p : Principal} {s : TextSet} {x : String}

theorem update_ne_self_iff {α β : Type} [DecidableEq α] {f : α → β} {a : α} {b : β} :
    update f a b ≠ f ↔ b ≠ f a := by
  refine not_congr ⟨fun h => ?_, fun h => ?_⟩
  · rw [← congrFun h a, update_same]
  · funext x
    by_cases hx : x = a
    · rw [hx, update_same, h]
    · rw [update_of_ne _ _ hx]

theorem TextSet.insert_ne_self_iff : s.insert x ≠ s ↔ x ∉ s := by
  refine not_congr ⟨fun h => h ▸ TextSet.mem_insert.2 (.inl rfl), fun h => ?_⟩
  ext y
  rw [TextSet.mem_insert]
  exact or_iff_right_of_imp fun hy => hy ▸ h

theorem TextSet.erase_ne_self_iff : s.erase x ≠ s ↔ x ∈ s := by
  rw [← not_iff_not, not_not]
  refine ⟨fun h hx => (TextSet.mem_erase.1 (h.symm ▸ hx)).2 rfl, fun h => ?_⟩
  ext y
  rw [TextSet.mem_erase]
  exact and_iff_left_of_imp fun hy hyx => h (hyx ▸ hy)

theorem TrailEntry.replay_eq_update (given : Bool) :
    replay held ⟨given, p.describe, x⟩ =
      update held p (if given then (held p).insert x else (held p).erase x) := by
  funext q
  unfold replay
  by_cases hq : q = p
  · rw [hq, if_pos rfl, update_same]
  · rw [if_neg fun h => hq (Principal.describe_inj.1 h), update_of_ne _ _ hq]

end

namespace Engine

open Call

/-! ### Giving and taking grants -/

/-- A call that gives or takes one grant. -/
inductive Edit where
  | assign (p : Principal) (capability : String)
  | revoke (p : Principal) (capability : String)

namespace Edit

def request : Edit → Request
  | assign p capability => .assign p capability
  | revoke p capability => .revoke p capability

/-- What the call records if it changes something. -/
def event : Edit → Event
  | assign p capability => .assigned p capability
  | revoke p capability => .revoked p capability

def entry : Edit → TrailEntry
  | assign p capability => ⟨true, p.describe, capability⟩
  | revoke p capability => ⟨false, p.describe, capability⟩

theorem entry?_event (d : Edit) : d.event.line.entry? = some d.entry := by
  cases d with
  | assign p capability => rfl
  | revoke p capability => rfl

end Edit

variable {κ : Type} {e : Engine κ} {d : Edit} {held : Principal → TextSet}
  {out : Outcome (Engine κ) (Failure EngineError) Reply}

/-- A call either answers that it changed what is held, and records that, or records nothing and
leaves what is held as it is. -/
def Recorded (d : Edit) (held : Principal → TextSet)
    (out : Outcome (Engine κ) (Failure EngineError) Reply) : Prop :=
  (out.answer = .ok (.flag true) ∧ out.events = [d.event] ∧
    out.state.grants.direct = d.entry.replay held ∧ d.entry.replay held ≠ held) ∨
  out.answer ≠ .ok (.flag true) ∧ out.events = [] ∧ out.state.grants.direct = held

theorem Recorded.replay (h : Recorded d held out) :
    (out.events.map Event.line).foldl LogLine.replay held = out.state.grants.direct ∧
      EachChanges held (out.events.map Event.line) := by
  rcases h with ⟨-, hevents, hstate, hchanges⟩ | ⟨-, hevents, hstate⟩
  · have hline : d.event.line.replay held = d.entry.replay held :=
      LogLine.replay_of_entry d.entry?_event
    rw [hevents, hstate, ← hline]
    exact ⟨rfl, fun _ => hline ▸ hchanges, trivial⟩
  · rw [hevents, hstate]
    exact ⟨rfl, trivial⟩

theorem Recorded.trail (h : Recorded d held out) :
    let trail := out.events.filterMap (·.line.entry?)
    out.answer = .ok (.flag true) ∧ trail = [d.entry] ∨
      out.answer ≠ .ok (.flag true) ∧ trail = [] := by
  rcases h with ⟨hanswer, hevents, -⟩ | ⟨hanswer, hevents, -⟩
  · refine .inl ⟨hanswer, ?_⟩
    rw [hevents, List.filterMap_cons, d.entry?_event]
    rfl
  · refine .inr ⟨hanswer, ?_⟩
    rw [hevents]
    rfl

theorem changed_apply (f : GrantStore → Bool × GrantStore) (event : Event) (e : Engine κ) :
    ((do
        let changed ← changeGrants f
        if changed then
          Call.emit [event]
        return changed) : Op κ Bool) e =
      ⟨.ok (f e.grants).1, { e with grants := (f e.grants).2 },
        if (f e.grants).1 then [event] else []⟩ := by
  rw [bind_of_ok (show changeGrants f e = ⟨.ok (f e.grants).1, _, []⟩ from rfl)]
  cases (f e.grants).1 with
  | true => rfl
  | false => rfl

theorem recorded_of_changed {f : GrantStore → Bool × GrantStore}
    (hanswer : (f e.grants).1 = true ↔ d.entry.replay e.grants.direct ≠ e.grants.direct)
    (hstate : (f e.grants).2.direct = d.entry.replay e.grants.direct) :
    Recorded d e.grants.direct (((do
        let changed ← changeGrants f
        if changed then
          Call.emit [d.event]
        return changed) >>= fun changed => pure (.flag changed) : Op κ Reply) e) := by
  rw [bind_of_ok (changed_apply f d.event e)]
  cases hf : (f e.grants).1 with
  | true => exact .inl ⟨rfl, rfl, hstate, hanswer.1 hf⟩
  | false =>
    have hsame : d.entry.replay e.grants.direct = e.grants.direct :=
      not_not.1 fun hne => by simp [hanswer.2 hne] at hf
    exact .inr ⟨nofun, rfl, hstate.trans hsame⟩

theorem revoke_recorded (p : Principal) (capability : String) (e : Engine κ) :
    Recorded (.revoke p capability) e.grants.direct
      ((revoke p capability >>= fun removed => pure (.flag removed) : Op κ Reply) e) := by
  refine recorded_of_changed (d := .revoke p capability) ?_ ?_
  · show decide _ = true ↔ _
    rw [Edit.entry, TrailEntry.replay_eq_update, update_ne_self_iff]
    exact decide_eq_true_iff.trans TextSet.erase_ne_self_iff.symm
  · rw [Edit.entry, TrailEntry.replay_eq_update]
    rfl

variable [CatalogStore κ] [CatalogStore.AnswersSilently κ]

/-- An assignment fails, or gives a grant to an engine that differs in its catalog only. -/
theorem assign_cases (p : Principal) (capability : String) (e : Engine κ) :
    (∃ f k, assign p capability e = ⟨.error f, { e with catalog := k }, []⟩) ∨
      ∃ c k, capability = c.render ∧ assign p capability e = (do
        let changed ← changeGrants fun g => g.assign p c
        if changed then
          Call.emit [.assigned p c.render]
        return changed : Op κ Bool) { e with catalog := k } := by
  unfold assign
  cases hparse : Capability.parse capability with
  | error reason =>
    have hfailed : (parse capability : Op κ Capability) e =
        ⟨.error (.error (.malformed reason)), e, []⟩ := by
      unfold parse
      rw [hparse]
      rfl
    exact .inl ⟨_, e.catalog, bind_of_error hfailed⟩
  | ok c =>
    have hparsed : (parse capability : Op κ Capability) e = ⟨.ok c, e, []⟩ := by
      unfold parse
      rw [hparse]
      rfl
    have hsilent := CatalogStore.AnswersSilently.contains capability e.catalog
    generalize hasked : (CatalogStore.contains capability : Call κ _ Bool) e.catalog = asked
      at hsilent
    obtain ⟨answer, k, events⟩ := asked
    cases hsilent
    have hcatalog : onCatalog (CatalogStore.contains capability) e =
        ⟨answer.mapError (Failure.map .store), { e with catalog := k }, []⟩ := by
      unfold onCatalog onPart
      rw [hasked]
    rw [bind_of_silent hparsed]
    cases answer with
    | error f => exact .inl ⟨_, k, bind_of_error hcatalog⟩
    | ok known =>
      rw [bind_of_silent hcatalog]
      cases known with
      | false => exact .inl ⟨_, k, rfl⟩
      | true => exact .inr ⟨c, k, (Capability.render_of_parse hparse).symm, rfl⟩

theorem assign_recorded (p : Principal) (capability : String) (e : Engine κ) :
    Recorded (.assign p capability) e.grants.direct
      ((assign p capability >>= fun added => pure (.flag added) : Op κ Reply) e) := by
  rcases assign_cases p capability e with ⟨f, k, hfailed⟩ | ⟨c, k, rfl, hgiven⟩
  · rw [bind_of_error hfailed]
    exact .inr ⟨nofun, rfl, rfl⟩
  · rw [bind_apply, hgiven, ← bind_apply]
    refine recorded_of_changed (d := .assign p c.render) (e := { e with catalog := k }) ?_ ?_
    · show decide _ = true ↔ _
      rw [Edit.entry, TrailEntry.replay_eq_update, update_ne_self_iff]
      exact decide_eq_true_iff.trans TextSet.insert_ne_self_iff.symm
    · rw [Edit.entry, TrailEntry.replay_eq_update]
      rfl

theorem perform_recorded (d : Edit) (e : Engine κ) :
    Recorded d e.grants.direct (d.request.perform e) := by
  cases d with
  | assign p capability => exact assign_recorded p capability e
  | revoke p capability => exact revoke_recorded p capability e

/-! ### Runs -/

/-- Calls one after another, each under some faults of the catalog. -/
abbrev Edits := List (List Fault × Edit)

def edit (e : Engine (FaultyCatalog κ)) (step : List Fault × Edit) :
    Outcome (Engine (FaultyCatalog κ)) (Failure EngineError) Reply :=
  step.2.request.perform (e.withFaults step.1)

def edited (e : Engine (FaultyCatalog κ)) (steps : Edits) : Engine (FaultyCatalog κ) :=
  steps.foldl (fun e step => (e.edit step).state) e

def log (e : Engine (FaultyCatalog κ)) : Edits → List LogLine
  | [] => []
  | step :: steps => (e.edit step).events.map Event.line ++ log (e.edit step).state steps

theorem edit_recorded (e : Engine (FaultyCatalog κ)) (step : List Fault × Edit) :
    Recorded step.2 e.grants.direct (e.edit step) :=
  perform_recorded step.2 (e.withFaults step.1)

theorem replay_log (e : Engine (FaultyCatalog κ)) (steps : Edits) :
    (e.log steps).foldl LogLine.replay e.grants.direct = (e.edited steps).grants.direct ∧
      EachChanges e.grants.direct (e.log steps) := by
  induction steps generalizing e with
  | nil => exact ⟨rfl, trivial⟩
  | cons step steps ih =>
    obtain ⟨hfirst, hchanges⟩ := (e.edit_recorded step).replay
    obtain ⟨hrest, hchanges'⟩ := ih (e.edit step).state
    rw [log, List.foldl_append, eachChanges_append, hfirst]
    exact ⟨hrest, hchanges, hchanges'⟩

/-- The log of any calls that give and take single grants, failing or not, is a faithful trail: read
from what everybody held before them, it comes to what everybody holds after them; each line of the
trail changes what is held when its turn comes; a call that answers that it changed something leaves
one line, with the principal and the grant that it was called with, and any other leaves none; and
the text in a line names one principal. -/
theorem trail_is_faithful (e : Engine (FaultyCatalog κ)) (steps : Edits) :
    (e.log steps).foldl LogLine.replay e.grants.direct = (e.edited steps).grants.direct ∧
    EachChanges e.grants.direct (e.log steps) ∧
    (∀ before step later, steps = before ++ step :: later →
      let out := (e.edited before).edit step
      let trail := out.events.filterMap (·.line.entry?)
      out.answer = .ok (.flag true) ∧ trail = [step.2.entry] ∨
        out.answer ≠ .ok (.flag true) ∧ trail = []) ∧
    ∀ p q : Principal, p.describe = q.describe → p = q := by
  obtain ⟨hreplay, hchanges⟩ := e.replay_log steps
  exact ⟨hreplay, hchanges, fun before step _ _ => ((e.edited before).edit_recorded step).trail,
    fun _ _ => Principal.describe_inj.1⟩

/-- A principal whose name looks like the end of another one's text, a grant that was never well
formed, a grant twice, one that the catalog does not list, and one while the catalog fails. -/
theorem trail_of_quoted_names :
    let ann : Principal := .user "ann' and role 'bob"
    let start : Engine (FaultyCatalog MemoryCatalog) :=
      new ⟨update (fun _ => ∅) ann (TextSet.ofList ["old"]), fun _ => ∅⟩
        ⟨[], ⟨TextSet.ofList ["post:edit"]⟩⟩
    let before : Edits := [([], .assign ann "post:edit"), ([], .assign ann "post:edit"),
      ([], .assign ann "post:delete")]
    let failing : List Fault × Edit := ([⟨.contains, false⟩], .assign (.role "bob") "post:edit")
    let later : Edits := [([], .revoke (.role "bob") "old"), ([], .revoke ann "old")]
    let steps := before ++ failing :: later
    (start.log steps).filterMap LogLine.entry? =
        [⟨true, "user 'ann' and role 'bob'", "post:edit"⟩,
          ⟨false, "user 'ann' and role 'bob'", "old"⟩] ∧
      (start.log steps).foldl LogLine.replay start.grants.direct ann =
        TextSet.ofList ["post:edit"] ∧
      ((start.edited before).edit failing).answer ≠ .ok (.flag true) := by
  intro ann start before failing later steps
  obtain ⟨hreplay, -, hcalls, -⟩ := trail_is_faithful start steps
  have hsilent : ((start.edited before).edit failing).events.filterMap (·.line.entry?) = [] := by
    decide +kernel
  rw [hreplay]
  refine ⟨by decide +kernel, by decide +kernel, ?_⟩
  refine ((hcalls before failing later rfl).resolve_left fun h => ?_).1
  cases hsilent.symm.trans h.2

end Engine

end Warrant
