import Warrant.Catalog
import Warrant.Proofs.Call

/-!
# What catalogs promise

A `CatalogLaw` says when a catalog holds a set, and that a call which answers does what it says to
that set. How a call that fails leaves the catalog is up to the law: catalogs in memory never fail,
and a fault leaves the catalog inside as it was.
-/

namespace Warrant

/-- A batch of a catalog. -/
inductive Batch where
  | add (entries : TextSet)
  | remove (entries : TextSet)

namespace Batch

def apply : Batch → TextSet → TextSet
  | add entries => (· ∪ entries)
  | remove entries => (· \ entries)

def call {κ : Type} [CatalogStore κ] : Batch → Call κ (Failure StoreError) Unit
  | add entries => CatalogStore.addAll entries
  | remove entries => CatalogStore.removeAll entries

end Batch

/-- What the calls on a type of catalogs do to the set that a catalog holds. -/
structure CatalogLaw (κ : Type) [CatalogStore κ] where
  Holds : κ → TextSet → Prop
  /-- How a catalog that held a set may be left by a call that fails. -/
  Failed : κ → TextSet → Prop
  load : ∀ {k : κ} {s : TextSet}, Holds k s →
    (CatalogStore.load : Call κ (Failure StoreError) TextSet).Ends k
      (fun t k' => t = s ∧ Holds k' s) (fun _ k' => Failed k' s)
  addAll : ∀ {k : κ} {s : TextSet} (batch : TextSet), Holds k s →
    (CatalogStore.addAll batch : Call κ (Failure StoreError) Unit).Ends k
      (fun _ k' => Holds k' (s ∪ batch)) (fun _ k' => Failed k' s)
  removeAll : ∀ {k : κ} {s : TextSet} (batch : TextSet), Holds k s →
    (CatalogStore.removeAll batch : Call κ (Failure StoreError) Unit).Ends k
      (fun _ k' => Holds k' (s \ batch)) (fun _ k' => Failed k' s)
  contains : ∀ {k : κ} {s : TextSet} (capability : String), Holds k s →
    (CatalogStore.contains capability : Call κ (Failure StoreError) Bool).Ends k
      (fun known k' => known = decide (capability ∈ s) ∧ Holds k' s)
      (fun _ k' => Failed k' s)

/-- A law under which something more stays true of a catalog that answers. -/
def CatalogLaw.and {κ : Type} [CatalogStore κ] (law : CatalogLaw κ) (P : κ → Prop)
    (hload : ∀ k s, law.Holds k s → P k → P (CatalogStore.load k).state)
    (haddAll : ∀ k s batch, law.Holds k s → P k → P (CatalogStore.addAll batch k).state)
    (hremoveAll : ∀ k s batch, law.Holds k s → P k → P (CatalogStore.removeAll batch k).state)
    (hcontains : ∀ k s capability, law.Holds k s → P k →
      P (CatalogStore.contains capability k).state) : CatalogLaw κ where
  Holds k s := law.Holds k s ∧ P k
  Failed := law.Failed
  load := fun ⟨h, hP⟩ => ((law.load h).and (Call.ends_self _ _)).mono
    (fun _ _ ⟨⟨ht, hk⟩, _, hstate⟩ => ⟨ht, hk, hstate ▸ hload _ _ h hP⟩) fun _ _ => And.left
  addAll := fun batch ⟨h, hP⟩ => ((law.addAll batch h).and (Call.ends_self _ _)).mono
    (fun _ _ ⟨hk, _, hstate⟩ => ⟨hk, hstate ▸ haddAll _ _ batch h hP⟩) fun _ _ => And.left
  removeAll := fun batch ⟨h, hP⟩ => ((law.removeAll batch h).and (Call.ends_self _ _)).mono
    (fun _ _ ⟨hk, _, hstate⟩ => ⟨hk, hstate ▸ hremoveAll _ _ batch h hP⟩) fun _ _ => And.left
  contains := fun capability ⟨h, hP⟩ =>
    ((law.contains capability h).and (Call.ends_self _ _)).mono
      (fun _ _ ⟨⟨hknown, hk⟩, _, hstate⟩ => ⟨hknown, hk, hstate ▸ hcontains _ _ capability h hP⟩)
      fun _ _ => And.left

/-! ### In memory -/

def MemoryCatalog.law : CatalogLaw MemoryCatalog where
  Holds k s := k.entries = s
  Failed _ _ := False
  load h := ⟨h, h⟩
  addAll batch h := congrArg (· ∪ batch) h
  removeAll batch h := congrArg (· \ batch) h
  contains capability h := ⟨by rw [← h], h⟩

/-! ### Carrying out a difference -/

namespace Delta

theorem announce_eq_emit {κ : Type} (d : Delta) :
    ∃ events, (announce d : Call κ (Failure StoreError) Unit) = Call.emit events := by
  unfold announce
  by_cases hlossy : d.isLossy = true
  · rw [if_pos hlossy]
    exact ⟨_, rfl⟩
  · rw [if_neg hlossy]
    exact ⟨[], rfl⟩

variable {κ : Type} [CatalogStore κ] (law : CatalogLaw κ) {d : Delta} {k : κ} {s : TextSet}

theorem union_toAdd_of_isEmpty (h : d.toAdd.isEmpty = true) : s ∪ d.toAdd = s := by
  rw [TextSet.isEmpty_iff.1 h]
  ext x
  simp

theorem sdiff_toRemove_of_isEmpty (h : d.toRemove.isEmpty = true) : s \ d.toRemove = s := by
  rw [TextSet.isEmpty_iff.1 h]
  ext x
  simp

theorem announce_ends (h : law.Holds k s) :
    (announce d).Ends k (fun _ k' => law.Holds k' s) (fun _ k' => law.Failed k' s) := by
  obtain ⟨events, hemit⟩ := announce_eq_emit (κ := κ) d
  rw [hemit]
  exact Call.ends_emit.2 h

theorem addBatch_ends (h : law.Holds k s) :
    (addBatch d).Ends k (fun _ k' => law.Holds k' (s ∪ d.toAdd))
      (fun _ k' => law.Failed k' s) := by
  unfold addBatch
  split
  · rename_i hempty
    rw [Call.ends_pure, union_toAdd_of_isEmpty hempty]
    exact h
  · exact (law.addAll d.toAdd h).bind fun _ _ hk => Call.ends_emit.2 hk

theorem removeBatch_ends (h : law.Holds k s) :
    (removeBatch d).Ends k (fun _ k' => law.Holds k' (s \ d.toRemove))
      (fun _ k' => law.Failed k' s) := by
  unfold removeBatch
  split
  · rename_i hempty
    rw [Call.ends_pure, sdiff_toRemove_of_isEmpty hempty]
    exact h
  · exact (law.removeAll d.toRemove h).bind fun _ _ hk => Call.ends_emit.2 hk

/-- A difference is carried out, or a call fails on the catalog as it was or with the additions. -/
theorem apply_ends (h : law.Holds k s) :
    (apply d).Ends k (fun _ k' => law.Holds k' (d.applyTo s))
      (fun _ k' => law.Failed k' s ∨ law.Failed k' (s ∪ d.toAdd)) := by
  unfold apply
  refine Call.Ends.bind ((announce_ends law h).mono (fun _ _ => id) fun _ _ => .inl) fun _ _ h => ?_
  refine Call.Ends.bind ((addBatch_ends law h).mono (fun _ _ => id) fun _ _ => .inl) fun _ _ h => ?_
  exact (removeBatch_ends law h).mono (fun _ _ => id) fun _ _ => .inr

end Delta

/-! ### With faults -/

namespace FaultyCatalog

variable {κ α : Type} [CatalogStore κ] {inside : CatalogLaw κ} {k : FaultyCatalog κ}
  {call : CatalogCall} {c : Call κ (Failure StoreError) α} {ok : α → κ → Prop} {s : TextSet}

theorem failure?_of_no_faults (call : CatalogCall) : failure? [] call = none := rfl

/-- A fault ends the call before it begins; otherwise the catalog inside answers or fails. The
faults stay on. -/
theorem guarded_ends (hk : inside.Holds k.inner s)
    (h : c.Ends k.inner ok fun _ i => inside.Failed i s) :
    (guarded call c).Ends k (fun a k' => k'.faults = k.faults ∧ ok a k'.inner)
      (fun _ k' => k'.faults = k.faults ∧
        (k.faults ≠ [] ∧ inside.Holds k'.inner s ∨ inside.Failed k'.inner s)) := by
  cases hf : failure? k.faults call with
  | some failure =>
    have hg : guarded call c k = Call.fail failure k := by unfold guarded; rw [hf]; rfl
    have hne : k.faults ≠ [] := fun e => by
      rw [e, failure?_of_no_faults] at hf
      cases hf
    rw [Call.ends_congr hg, Call.ends_fail]
    exact ⟨rfl, .inl ⟨hne, hk⟩⟩
  | none =>
    have hg : guarded call c k = c.onPart inner (fun k i => { k with inner := i }) id k := by
      unfold guarded; rw [hf]
    rw [Call.ends_congr hg]
    refine h.onPart.mono ?_ ?_
    · rintro a _ ⟨i, hi, rfl⟩
      exact ⟨rfl, hi⟩
    · rintro _ _ ⟨e, i, hi, rfl, rfl⟩
      exact ⟨rfl, .inr hi⟩

def law (faults : List Fault) (inside : CatalogLaw κ) : CatalogLaw (FaultyCatalog κ) where
  Holds k s := k.faults = faults ∧ inside.Holds k.inner s
  Failed k s := k.faults = faults ∧
    (faults ≠ [] ∧ inside.Holds k.inner s ∨ inside.Failed k.inner s)
  load := fun ⟨hf, h⟩ => by
    subst hf
    exact (guarded_ends h (inside.load h)).mono (fun _ _ g => ⟨g.2.1, g.1, g.2.2⟩) fun _ _ g => g
  addAll := fun batch ⟨hf, h⟩ => by
    subst hf
    exact guarded_ends h (inside.addAll batch h)
  removeAll := fun batch ⟨hf, h⟩ => by
    subst hf
    exact guarded_ends h (inside.removeAll batch h)
  contains := fun capability ⟨hf, h⟩ => by
    subst hf
    exact (guarded_ends h (inside.contains capability h)).mono
      (fun _ _ g => ⟨g.2.1, g.1, g.2.2⟩) fun _ _ g => g

end FaultyCatalog

end Warrant
