import Warrant.Proofs.Catalog.Law

/-!
# Work that is still outstanding

A difference may be carried out in part, by batches of any size, in any order, and with some of the
work done twice. What is outstanding then is exactly what was not done, and doing either that or the
whole difference once more leads to the legal set, additions first or removals first
(`outstanding_after_part`). Nothing smaller than the difference would lead there.
-/

namespace Warrant

namespace Batch

def Adds (x : String) : Batch → Prop
  | add entries => x ∈ entries
  | remove _ => False

def Removes (x : String) : Batch → Prop
  | add _ => False
  | remove entries => x ∈ entries

theorem mem_apply {b : Batch} {catalog : TextSet} {x : String} :
    x ∈ b.apply catalog ↔ (x ∈ catalog ∨ b.Adds x) ∧ ¬ b.Removes x := by
  cases b with
  | add entries => simp [apply, Adds, Removes]
  | remove entries => simp [apply, Adds, Removes]

end Batch

namespace Delta

def afterBatches (catalog : TextSet) (batches : List Batch) : TextSet :=
  batches.foldl (fun s b => b.apply s) catalog

/-- What batches amount to: the capabilities that some of them add, and those that some remove. -/
structure MadeBy (done : Delta) (batches : List Batch) : Prop where
  adds : ∀ x, x ∈ done.toAdd ↔ ∃ b ∈ batches, b.Adds x
  removes : ∀ x, x ∈ done.toRemove ↔ ∃ b ∈ batches, b.Removes x

variable {legal catalog mid : TextSet} {d done next : Delta} {batches : List Batch} {x : String}

/-! ### Batches in any order -/

/-- The order of the batches matters only for what some of them add and others remove. -/
theorem mem_afterBatches (h : ∀ b ∈ batches, ∀ b' ∈ batches, b.Adds x → ¬ b'.Removes x) :
    x ∈ afterBatches catalog batches ↔
      (x ∈ catalog ∨ ∃ b ∈ batches, b.Adds x) ∧ ¬ ∃ b ∈ batches, b.Removes x := by
  induction batches generalizing catalog with
  | nil => simp [afterBatches]
  | cons b rest ih =>
    have hrest : ∀ b ∈ rest, ∀ b' ∈ rest, b.Adds x → ¬ b'.Removes x := fun c hc c' hc' =>
      h c (List.mem_cons_of_mem b hc) c' (List.mem_cons_of_mem b hc')
    have hhead : ∀ c ∈ rest, c.Adds x → ¬ b.Removes x := fun c hc =>
      h c (List.mem_cons_of_mem b hc) b List.mem_cons_self
    show x ∈ afterBatches (b.apply catalog) rest ↔ _
    rw [ih hrest, Batch.mem_apply]
    simp only [List.mem_cons, exists_eq_or_imp]
    -- The head removes nothing that a later batch adds.
    grind

theorem MadeBy.mem_afterBatches (hmade : done.MadeBy batches)
    (hdisjoint : ∀ x ∈ done.toAdd, x ∉ done.toRemove) :
    x ∈ afterBatches catalog batches ↔ x ∈ done.applyTo catalog := by
  rw [Delta.mem_afterBatches, ← hmade.adds, ← hmade.removes, mem_applyTo]
  intro b hb b' hb' hadds hremoves
  exact hdisjoint x ((hmade.adds x).2 ⟨b, hb, hadds⟩) ((hmade.removes x).2 ⟨b', hb', hremoves⟩)

/-! ### What is left to do -/

theorem reconcile_disjoint : ∀ x ∈ (reconcile legal catalog).toAdd,
    x ∉ (reconcile legal catalog).toRemove := by
  intro x hadd hremove
  exact (TextSet.mem_sdiff.1 hadd).2 (TextSet.mem_sdiff.1 hremove).1

theorem reconcile_self (legal : TextSet) : reconcile legal legal = ⟨∅, ∅⟩ := by
  rw [reconcile, TextSet.sdiff_self]

theorem reconcile_applyTo (hadd : done.toAdd ⊆ (reconcile legal catalog).toAdd)
    (hremove : done.toRemove ⊆ (reconcile legal catalog).toRemove) :
    reconcile legal (done.applyTo catalog) =
      ⟨(reconcile legal catalog).toAdd \ done.toAdd,
        (reconcile legal catalog).toRemove \ done.toRemove⟩ := by
  have hlegal : ∀ x ∈ done.toAdd, x ∈ legal := fun x hx => (TextSet.mem_sdiff.1 (hadd x hx)).1
  have hstale : ∀ x ∈ done.toRemove, x ∉ legal := fun x hx =>
    (TextSet.mem_sdiff.1 (hremove x hx)).2
  rw [reconcile, Delta.mk.injEq]
  constructor
  · ext x
    simp only [reconcile, TextSet.mem_sdiff, mem_applyTo]
    grind
  · ext x
    simp only [reconcile, TextSet.mem_sdiff, mem_applyTo]
    grind

/-- A difference leads to the legal set, in either order, if it adds only what is legal and removes
only what is not, and lacks nothing of that. -/
theorem leads_to_legal (hadd : next.toAdd ⊆ legal) (hremove : ∀ x ∈ next.toRemove, x ∉ legal)
    (hmissing : (reconcile legal mid).toAdd ⊆ next.toAdd)
    (hexcess : (reconcile legal mid).toRemove ⊆ next.toRemove) :
    next.applyTo mid = legal ∧ mid \ next.toRemove ∪ next.toAdd = legal := by
  have hmissing : ∀ x ∈ legal, x ∉ mid → x ∈ next.toAdd := fun x hl hm =>
    hmissing x (TextSet.mem_sdiff.2 ⟨hl, hm⟩)
  have hexcess : ∀ x ∈ mid, x ∉ legal → x ∈ next.toRemove := fun x hm hl =>
    hexcess x (TextSet.mem_sdiff.2 ⟨hm, hl⟩)
  constructor
  · ext x
    have := hadd x
    rw [mem_applyTo]
    grind
  · ext x
    have := hadd x
    rw [TextSet.mem_union, TextSet.mem_sdiff]
    grind

/-- Whatever leads to the legal set has all of the difference in it. -/
theorem reconcile_least (h : d.applyTo catalog = legal) :
    (reconcile legal catalog).toAdd ⊆ d.toAdd ∧
      (reconcile legal catalog).toRemove ⊆ d.toRemove := by
  subst h
  constructor
  · intro x hx
    obtain ⟨hlegal, hcatalog⟩ := TextSet.mem_sdiff.1 hx
    exact (mem_applyTo.1 hlegal).1.resolve_left hcatalog
  · intro x hx
    obtain ⟨hcatalog, hlegal⟩ := TextSet.mem_sdiff.1 hx
    exact Classical.byContradiction fun hkept => hlegal (mem_applyTo.2 ⟨.inl hcatalog, hkept⟩)

/-- The difference has nothing in both its parts, leads to the legal set, and is the least that
does. After any batches that make a part of it, in any order and with any repetition, exactly the
rest is outstanding. That rest, and the whole difference just as well, leads to the legal set from
there, additions first or removals first; and then nothing is outstanding. -/
theorem outstanding_after_part (legal catalog : TextSet) :
    let d := reconcile legal catalog
    (∀ x ∈ d.toAdd, x ∉ d.toRemove) ∧
    d.applyTo catalog = legal ∧
    (∀ (done : Delta) (batches : List Batch), done.MadeBy batches →
      done.toAdd ⊆ d.toAdd → done.toRemove ⊆ d.toRemove →
        let mid := afterBatches catalog batches
        let rest := reconcile legal mid
        rest = ⟨d.toAdd \ done.toAdd, d.toRemove \ done.toRemove⟩ ∧
        (rest.applyTo mid = legal ∧ mid \ rest.toRemove ∪ rest.toAdd = legal) ∧
        (d.applyTo mid = legal ∧ mid \ d.toRemove ∪ d.toAdd = legal)) ∧
    (reconcile legal legal).isEmpty = true ∧
    ∀ d' : Delta, d'.applyTo catalog = legal → d.toAdd ⊆ d'.toAdd ∧ d.toRemove ⊆ d'.toRemove := by
  intro d
  have hlegal : d.toAdd ⊆ legal := fun x hx => (TextSet.mem_sdiff.1 hx).1
  have hstale : ∀ x ∈ d.toRemove, x ∉ legal := fun x hx => (TextSet.mem_sdiff.1 hx).2
  refine ⟨reconcile_disjoint, applyTo_reconcile legal catalog, ?_, ?_, fun _ => reconcile_least⟩
  · intro done batches hmade hadd hremove mid rest
    have hmid : mid = done.applyTo catalog := by
      ext x
      exact hmade.mem_afterBatches fun x hx hx' =>
        reconcile_disjoint x (hadd x hx) (hremove x hx')
    have hrest : rest = ⟨d.toAdd \ done.toAdd, d.toRemove \ done.toRemove⟩ := by
      rw [← reconcile_applyTo hadd hremove, ← hmid]
    refine ⟨hrest, ?_, ?_⟩
    · exact leads_to_legal (fun x hx => (TextSet.mem_sdiff.1 hx).1)
        (fun x hx => (TextSet.mem_sdiff.1 hx).2) (fun _ => id) fun _ => id
    · have hmissing : rest.toAdd ⊆ d.toAdd := by
        rw [hrest]
        exact fun x hx => (TextSet.mem_sdiff.1 hx).1
      have hexcess : rest.toRemove ⊆ d.toRemove := by
        rw [hrest]
        exact fun x hx => (TextSet.mem_sdiff.1 hx).1
      exact leads_to_legal hlegal hstale hmissing hexcess
  · rw [reconcile_self]
    rfl

/-- Half of the difference was made, twice over and with the removal first; what is outstanding is
the other half. A difference that adds all that is legal also leads there and is no smaller. -/
theorem outstanding_after_repeated_half :
    let legal := TextSet.ofList ["*:*:*", "post:edit", "post:view"]
    let catalog := TextSet.ofList ["::", "post:old", "post:view"]
    let done : Delta := ⟨TextSet.ofList ["post:edit"], TextSet.ofList ["post:old"]⟩
    let batches : List Batch :=
      [.remove done.toRemove, .add done.toAdd, .add done.toAdd, .remove done.toRemove]
    let full : Delta := ⟨legal, TextSet.ofList ["::", "post:old"]⟩
    done.MadeBy batches ∧ done.toAdd ⊆ (reconcile legal catalog).toAdd ∧
      done.toRemove ⊆ (reconcile legal catalog).toRemove ∧
      reconcile legal (afterBatches catalog batches) =
        ⟨TextSet.ofList ["*:*:*"], TextSet.ofList ["::"]⟩ ∧
      full.applyTo catalog = legal ∧ (reconcile legal catalog).toAdd ⊆ full.toAdd := by
  intro legal catalog done batches full
  have hmade : done.MadeBy batches := by
    constructor
    · simp [batches, Batch.Adds]
    · simp [batches, Batch.Removes]
  have hadd : done.toAdd ⊆ (reconcile legal catalog).toAdd := by
    intro x hx
    rw [TextSet.mem_ofList, List.mem_singleton] at hx
    rw [hx]
    decide
  have hremove : done.toRemove ⊆ (reconcile legal catalog).toRemove := by
    intro x hx
    rw [TextSet.mem_ofList, List.mem_singleton] at hx
    rw [hx]
    decide
  have hfull : full.applyTo catalog = legal := by decide
  obtain ⟨-, -, hpart, -, hleast⟩ := outstanding_after_part legal catalog
  refine ⟨hmade, hadd, hremove, ?_, hfull, (hleast full hfull).1⟩
  rw [(hpart done batches hmade hadd hremove).1]
  decide

end Delta

end Warrant
