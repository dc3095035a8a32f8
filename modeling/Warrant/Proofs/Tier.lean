import Mathlib.Order.MinMax
import Warrant.Tier

/-!
# The order of tiers

Tiers are linearly ordered by rank, so a tier is known once all tiers below it are.
-/

namespace Warrant.Tier

instance : LinearOrder Tier where
  le_refl a := Nat.le_refl a.rank
  le_trans _ _ _ h h' := Nat.le_trans h h'
  lt_iff_le_not_ge _ _ := Nat.lt_iff_le_and_not_ge
  le_antisymm _ _ h h' := rank_inj.1 (Nat.le_antisymm h h')
  le_total a b := Nat.le_total a.rank b.rank
  toDecidableLE := inferInstance
  toDecidableEq := inferInstance
  toDecidableLT := inferInstance

@[simp] theorem none_le (t : Tier) : none ≤ t := Nat.zero_le t.rank

@[simp] theorem le_all (t : Tier) : t ≤ all := by cases t <;> decide

@[simp] theorem le_none_iff {t : Tier} : t ≤ none ↔ t = none :=
  ⟨fun h => le_antisymm h (none_le t), fun h => h ▸ le_refl none⟩

theorem isPermitted_iff {t : Tier} : t.isPermitted = true ↔ own ≤ t := by cases t <;> decide

theorem isPermitted_eq_false_iff {t : Tier} : t.isPermitted = false ↔ t = none := by
  cases t <;> decide

/-! ### The highest of several -/

theorem le_foldl_max_iff {t first : Tier} {ts : List Tier} :
    t ≤ ts.foldl max first ↔ t ≤ first ∨ ∃ u ∈ ts, t ≤ u := by
  induction ts generalizing first with
  | nil => simp
  | cons u ts ih => simp only [List.foldl_cons, ih, le_max_iff, List.mem_cons, exists_eq_or_imp,
      or_assoc]

theorem le_highest_iff {t : Tier} {ts : List Tier} :
    t ≤ (highest? ts).getD none ↔ t = none ∨ ∃ u ∈ ts, t ≤ u := by
  cases ts with
  | nil => simp [highest?]
  | cons u ts =>
    simp only [highest?, Option.getD_some, le_foldl_max_iff, List.mem_cons, exists_eq_or_imp]
    exact ⟨.inr, fun h => h.elim (fun hnone => .inl (hnone ▸ none_le u)) id⟩

end Warrant.Tier
