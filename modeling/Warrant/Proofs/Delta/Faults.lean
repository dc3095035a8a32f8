import Warrant.Proofs.Catalog.Law

/-!
# Carrying out a difference under faults

A difference is carried out on a catalog in memory while faults may be on. A fault counts only where
its batch is made, which an empty one is not, and where nothing failed before. If none counts, the
catalog comes to hold what the difference makes of a set; otherwise it holds what it held, or has
the additions, according to the batch that failed (`apply_agrees_with_applyTo`).
-/

namespace Warrant

namespace FaultyCatalog

variable {faults : List Fault} {call : CatalogCall} {batch : TextSet} {f : Failure StoreError}

def IsOn (faults : List Fault) (call : CatalogCall) : Prop :=
  ∃ breaksOff, ⟨call, breaksOff⟩ ∈ faults

/-- A fault is on for a batch that is not empty. -/
def Struck (faults : List Fault) (call : CatalogCall) (batch : TextSet) : Prop :=
  batch ≠ ∅ ∧ IsOn faults call

theorem failure?_eq_none_iff : failure? faults call = none ↔ ¬ IsOn faults call := by
  unfold failure? IsOn
  rw [Bool.exists_bool]
  split
  · simp_all
  · split
    · simp_all
    · simp_all

theorem failure?_filter {p : Fault → Bool} (h : ∀ breaksOff, p ⟨call, breaksOff⟩ = true) :
    failure? (faults.filter p) call = failure? faults call := by
  simp [failure?, List.mem_filter, h]

def strike? (faults : List Fault) (call : CatalogCall) (batch : TextSet) :
    Option (Failure StoreError) :=
  if batch.isEmpty then none else failure? faults call

theorem strike?_eq_none_iff : strike? faults call batch = none ↔ ¬ Struck faults call batch := by
  rw [Struck, not_and, ← failure?_eq_none_iff, strike?]
  simp [TextSet.isEmpty_iff]

theorem failure?_of_strike (h : strike? faults call batch = some f) :
    Struck faults call batch ∧ failure? faults call = some f := by
  refine ⟨Classical.byContradiction fun hnot => ?_, (Option.ite_none_left_eq_some.1 h).2⟩
  rw [strike?_eq_none_iff.2 hnot] at h
  cases h

/-- Of an empty batch the faults do not matter. -/
theorem strike?_congr {faults' : List Fault}
    (h : batch ≠ ∅ → failure? faults' call = failure? faults call) :
    strike? faults' call batch = strike? faults call batch := by
  unfold strike?
  split
  · rfl
  · rename_i hempty
    exact h fun he => hempty (TextSet.isEmpty_iff.2 he)

theorem batch_outcome {κ : Type} {k : FaultyCatalog κ} {c : Call κ (Failure StoreError) Unit}
    {event : Event} {i : κ} {events : List Event} (hc : c k.inner = ⟨.ok (), i, events⟩)
    (hempty : batch = ∅ → i = k.inner) :
    ∃ events', (if batch.isEmpty then pure () else do guarded call c; Call.emit [event]) k =
      match strike? k.faults call batch with
      | some f => ⟨.error f, k, []⟩
      | none => ⟨.ok (), { k with inner := i }, events'⟩ := by
  unfold strike?
  split
  · rename_i h
    rw [hempty (TextSet.isEmpty_iff.1 h)]
    exact ⟨[], rfl⟩
  · cases hf : failure? k.faults call with
    | some f =>
      have hguarded : guarded call c k = ⟨.error f, k, []⟩ := by rw [guarded, hf]
      exact ⟨[], Call.bind_of_error hguarded⟩
    | none =>
      have hguarded : guarded call c k = ⟨.ok (), { k with inner := i }, events⟩ := by
        rw [guarded, hf]
        unfold Call.onPart
        rw [hc]
        rfl
      exact ⟨_, Call.bind_of_ok hguarded⟩

end FaultyCatalog

namespace Delta

open FaultyCatalog

/-- What carrying out a difference answers and leaves, by the first batch that fails. -/
theorem apply_outcome (d : Delta) (content : TextSet) (faults : List Fault) :
    let k : FaultyCatalog MemoryCatalog := ⟨faults, ⟨content⟩⟩
    ((d.apply k).answer, (d.apply k).state) =
      match strike? faults .add d.toAdd, strike? faults .remove d.toRemove with
      | some f, _ => (.error f, k)
      | none, some f => (.error f, ⟨faults, ⟨content ∪ d.toAdd⟩⟩)
      | none, none => (.ok (), ⟨faults, ⟨d.applyTo content⟩⟩) := by
  intro k
  let added : FaultyCatalog MemoryCatalog := ⟨faults, ⟨content ∪ d.toAdd⟩⟩
  obtain ⟨announced, hannounce⟩ := announce_eq_emit (κ := FaultyCatalog MemoryCatalog) d
  obtain ⟨_, hadd⟩ : ∃ events, d.addBatch k = _ := batch_outcome rfl fun h =>
    congrArg MemoryCatalog.mk (union_toAdd_of_isEmpty (TextSet.isEmpty_iff.2 h))
  obtain ⟨_, hremove⟩ : ∃ events, d.removeBatch added = _ := batch_outcome rfl fun h =>
    congrArg MemoryCatalog.mk (sdiff_toRemove_of_isEmpty (TextSet.isEmpty_iff.2 h))
  have happly : d.apply k = (do Call.emit announced; d.addBatch; d.removeBatch) k := by
    rw [apply, hannounce]
  rw [happly, Call.bind_of_ok (Call.emit_apply _ _)]
  cases hsa : strike? faults .add d.toAdd with
  | some f =>
    rw [hsa] at hadd
    rw [Call.bind_of_error hadd]
  | none =>
    rw [hsa] at hadd
    rw [Call.bind_of_ok hadd]
    cases hsr : strike? faults .remove d.toRemove with
    | some f =>
      rw [hsr] at hremove
      rw [show d.removeBatch _ = _ from hremove]
    | none =>
      rw [hsr] at hremove
      rw [show d.removeBatch _ = _ from hremove]
      rfl

theorem apply_cases (d : Delta) (content : TextSet) (faults : List Fault) :
    let out := d.apply (⟨faults, ⟨content⟩⟩ : FaultyCatalog MemoryCatalog)
    let left := out.state.inner.entries
    (∃ f, out.answer = .error f ∧ failure? faults .add = some f ∧ left = content ∧
      Struck faults .add d.toAdd) ∨
    (∃ f, out.answer = .error f ∧ failure? faults .remove = some f ∧ left = content ∪ d.toAdd ∧
      ¬ Struck faults .add d.toAdd ∧ Struck faults .remove d.toRemove) ∨
    out.answer = .ok () ∧ left = d.applyTo content ∧
      ¬ Struck faults .add d.toAdd ∧ ¬ Struck faults .remove d.toRemove := by
  intro out left
  have hout : (out.answer, out.state) = _ := apply_outcome d content faults
  cases hadd : strike? faults .add d.toAdd with
  | some f =>
    rw [hadd] at hout
    obtain ⟨hstruck, hf⟩ := failure?_of_strike hadd
    obtain ⟨hanswer, hstate⟩ := Prod.ext_iff.1 hout
    exact .inl ⟨f, hanswer, hf, congrArg (·.inner.entries) hstate, hstruck⟩
  | none =>
    have hadds := strike?_eq_none_iff.1 hadd
    cases hremove : strike? faults .remove d.toRemove with
    | some f =>
      rw [hadd, hremove] at hout
      obtain ⟨hstruck, hf⟩ := failure?_of_strike hremove
      obtain ⟨hanswer, hstate⟩ := Prod.ext_iff.1 hout
      exact .inr (.inl ⟨f, hanswer, hf, congrArg (·.inner.entries) hstate, hadds, hstruck⟩)
    | none =>
      rw [hadd, hremove] at hout
      obtain ⟨hanswer, hstate⟩ := Prod.ext_iff.1 hout
      exact .inr (.inr ⟨hanswer, congrArg (·.inner.entries) hstate, hadds,
        strike?_eq_none_iff.1 hremove⟩)

/-- The faults on batches that are made. -/
def heeded (d : Delta) (faults : List Fault) : List Fault :=
  faults.filter fun f => f.call = .add ∧ d.toAdd ≠ ∅ ∨ f.call = .remove ∧ d.toRemove ≠ ∅

/-- Other faults are not noticed. -/
theorem apply_heeded (d : Delta) (content : TextSet) (faults : List Fault) :
    let out := d.apply (⟨faults, ⟨content⟩⟩ : FaultyCatalog MemoryCatalog)
    let out' := d.apply (⟨d.heeded faults, ⟨content⟩⟩ : FaultyCatalog MemoryCatalog)
    out'.answer = out.answer ∧ out'.state.inner = out.state.inner := by
  intro out out'
  have hadd : strike? (d.heeded faults) .add d.toAdd = strike? faults .add d.toAdd :=
    strike?_congr fun hne => failure?_filter fun _ => by simp [hne]
  have hremove : strike? (d.heeded faults) .remove d.toRemove = strike? faults .remove d.toRemove :=
    strike?_congr fun hne => failure?_filter fun _ => by simp [hne]
  have hout : (out.answer, out.state) = _ := apply_outcome d content faults
  have hout' : (out'.answer, out'.state) = _ := apply_outcome d content (d.heeded faults)
  rw [hadd, hremove] at hout'
  obtain ⟨ha, hs⟩ := Prod.ext_iff.1 hout
  obtain ⟨ha', hs'⟩ := Prod.ext_iff.1 hout'
  dsimp only at ha hs ha' hs'
  rw [ha, ha', hs, hs']
  cases strike? faults .add d.toAdd with
  | some f => exact ⟨rfl, rfl⟩
  | none =>
    cases strike? faults .remove d.toRemove with
    | some f => exact ⟨rfl, rfl⟩
    | none => exact ⟨rfl, rfl⟩

/-- A difference is any two sets, which may overlap. If carrying it out on a catalog in memory
answers, the catalog holds what it makes of a set, and nothing that is to be removed is left. It
fails just if a fault is on for a batch that is not empty and is reached: at the additions, with the
catalog as it was, or else at the removals, with the additions made. Faults on empty batches make no
difference. -/
theorem apply_agrees_with_applyTo (d : Delta) (content : TextSet) (faults : List Fault) :
    let out := d.apply (⟨faults, ⟨content⟩⟩ : FaultyCatalog MemoryCatalog)
    let left := out.state.inner.entries
    let addFails := d.toAdd ≠ ∅ ∧ IsOn faults .add
    let removeFails := ¬ addFails ∧ d.toRemove ≠ ∅ ∧ IsOn faults .remove
    (out.answer = .ok () → left = d.applyTo content ∧
      ∀ x ∈ d.toAdd, x ∈ d.toRemove → x ∉ left) ∧
    (∀ f, out.answer = .error f →
      addFails ∧ failure? faults .add = some f ∧ left = content ∨
      removeFails ∧ failure? faults .remove = some f ∧ left = content ∪ d.toAdd) ∧
    ((∃ f, out.answer = .error f) ↔ addFails ∨ removeFails) ∧
    let out' := d.apply (⟨d.heeded faults, ⟨content⟩⟩ : FaultyCatalog MemoryCatalog)
    out'.answer = out.answer ∧ out'.state.inner = out.state.inner := by
  intro out left addFails removeFails
  have hcases : (∃ f, out.answer = .error f ∧ failure? faults .add = some f ∧ left = content ∧
      addFails) ∨ (∃ f, out.answer = .error f ∧ failure? faults .remove = some f ∧
      left = content ∪ d.toAdd ∧ removeFails) ∨ out.answer = .ok () ∧ left = d.applyTo content ∧
      ¬ addFails ∧ ¬ (d.toRemove ≠ ∅ ∧ IsOn faults .remove) := apply_cases d content faults
  refine ⟨?_, ?_, ?_, apply_heeded d content faults⟩
  · intro hok
    rcases hcases with ⟨f, hf, -⟩ | ⟨f, hf, -⟩ | ⟨-, hleft, -⟩
    · cases hok.symm.trans hf
    · cases hok.symm.trans hf
    · refine ⟨hleft, fun x _ hremove hx => ?_⟩
      rw [hleft, mem_applyTo] at hx
      exact hx.2 hremove
  · intro f herror
    rcases hcases with ⟨f', hf, hfailure, hleft, h⟩ | ⟨f', hf, hfailure, hleft, h⟩ | ⟨hok, -⟩
    · cases herror.symm.trans hf
      exact .inl ⟨h, hfailure, hleft⟩
    · cases herror.symm.trans hf
      exact .inr ⟨h, hfailure, hleft⟩
    · cases herror.symm.trans hok
  · constructor
    · rintro ⟨f, herror⟩
      rcases hcases with ⟨-, -, -, -, h⟩ | ⟨-, -, -, -, h⟩ | ⟨hok, -⟩
      · exact .inl h
      · exact .inr h
      · cases herror.symm.trans hok
    · intro hfails
      rcases hcases with ⟨f, hf, -⟩ | ⟨f, hf, -⟩ | ⟨-, -, hadd, hremove⟩
      · exact ⟨f, hf⟩
      · exact ⟨f, hf⟩
      · rcases hfails with h | h
        · exact absurd h hadd
        · exact absurd h.2 hremove

/-- A capability that is both to be added and to be removed ends up absent; while the removals fail
it is there. -/
theorem overlap_removed_last :
    let d : Delta := ⟨TextSet.ofList ["post:edit", "post:view"],
      TextSet.ofList ["post:old", "post:view"]⟩
    let out := fun faults =>
      d.apply (⟨faults, ⟨TextSet.ofList ["post:old"]⟩⟩ : FaultyCatalog MemoryCatalog)
    (out [⟨.load, true⟩]).answer = .ok () ∧
      (out [⟨.load, true⟩]).state.inner.entries = TextSet.ofList ["post:edit"] ∧
      "post:view" ∉ (out [⟨.load, true⟩]).state.inner.entries ∧
      (out [⟨.remove, false⟩]).answer = .error (.error ⟨"flaky", "remove failed"⟩) ∧
      (out [⟨.remove, false⟩]).state.inner.entries =
        TextSet.ofList ["post:edit", "post:old", "post:view"] := by
  intro d out
  have hok : (out [⟨.load, true⟩]).answer = .ok () := rfl
  have herror : (out [⟨.remove, false⟩]).answer = .error (.error ⟨"flaky", "remove failed"⟩) := rfl
  obtain ⟨hanswered, -⟩ :=
    apply_agrees_with_applyTo d (TextSet.ofList ["post:old"]) [⟨.load, true⟩]
  obtain ⟨-, hfailed, -⟩ :=
    apply_agrees_with_applyTo d (TextSet.ofList ["post:old"]) [⟨.remove, false⟩]
  obtain ⟨hleft, habsent⟩ := hanswered hok
  refine ⟨hok, hleft.trans (by decide), habsent "post:view" (by decide) (by decide), herror, ?_⟩
  rcases hfailed _ herror with ⟨-, hadd, -⟩ | ⟨-, -, hleft⟩
  · cases hadd
  · exact hleft.trans (by decide)

end Delta

end Warrant
