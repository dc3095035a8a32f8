/-!
# Sequences that may fail

A sequence of two steps answers if both do, and fails as the first one of them that fails. So does a
step that is taken for each element of a list.
-/

namespace Warrant

variable {ε α β : Type} {x : Except ε α} {f : α → Except ε β}

theorem exists_of_bind_ok {b : β} (h : x >>= f = .ok b) : ∃ a, x = .ok a ∧ f a = .ok b := by
  cases x with
  | error e => cases h
  | ok a => exact ⟨a, rfl, h⟩

theorem error_of_bind {e : ε} (h : x >>= f = .error e) :
    x = .error e ∨ ∃ a, x = .ok a ∧ f a = .error e := by
  cases x with
  | error e' =>
    cases h
    exact .inl rfl
  | ok a => exact .inr ⟨a, rfl, h⟩

theorem then_eq_ok_iff {x : Except ε Unit} {y : Except ε β} {b : β} :
    (x >>= fun _ => y) = .ok b ↔ x = .ok () ∧ y = .ok b := by
  constructor
  · intro h
    obtain ⟨_, hx, hy⟩ := exists_of_bind_ok h
    exact ⟨hx, hy⟩
  · rintro ⟨rfl, hy⟩
    exact hy

theorem exists_of_mapM_ok {f : α → Except ε β} {xs : List α} :
    (∃ bs, xs.mapM f = .ok bs) ↔ ∀ x ∈ xs, ∃ b, f x = .ok b := by
  induction xs with
  | nil => exact iff_of_true ⟨[], rfl⟩ fun _ => nofun
  | cons x xs ih =>
    rw [List.forall_mem_cons, ← ih, List.mapM_cons]
    constructor
    · rintro ⟨_, h⟩
      obtain ⟨b, hb, hrest⟩ := exists_of_bind_ok h
      obtain ⟨bs, hbs, -⟩ := exists_of_bind_ok hrest
      exact ⟨⟨b, hb⟩, bs, hbs⟩
    · rintro ⟨⟨b, hb⟩, bs, hbs⟩
      rw [hb, hbs]
      exact ⟨b :: bs, rfl⟩

theorem mem_of_mapM_ok {f : α → Except ε β} {xs : List α} {bs : List β} {b : β}
    (h : xs.mapM f = .ok bs) : b ∈ bs ↔ ∃ x ∈ xs, f x = .ok b := by
  induction xs generalizing bs with
  | nil =>
    cases h
    exact iff_of_false List.not_mem_nil nofun
  | cons x xs ih =>
    rw [List.mapM_cons] at h
    obtain ⟨b', hx, hrest⟩ := exists_of_bind_ok h
    obtain ⟨bs', hxs, hbs⟩ := exists_of_bind_ok hrest
    cases hbs
    simp only [List.mem_cons, ih hxs, exists_eq_or_imp, hx, Except.ok.injEq, eq_comm (a := b)]

/-- The elements before the one that fails are those that were answered. -/
theorem exists_first_of_mapM_error {f : α → Except ε β} {xs : List α} {e : ε}
    (h : xs.mapM f = .error e) : ∃ before x later, xs = before ++ x :: later ∧
      (∀ y ∈ before, ∃ b, f y = .ok b) ∧ f x = .error e := by
  induction xs with
  | nil => cases h
  | cons x xs ih =>
    rw [List.mapM_cons] at h
    rcases error_of_bind h with hx | ⟨b, hx, h⟩
    · exact ⟨[], x, xs, rfl, fun _ => nofun, hx⟩
    rcases error_of_bind h with hxs | ⟨_, -, h⟩
    · obtain ⟨before, y, later, rfl, hbefore, hy⟩ := ih hxs
      exact ⟨x :: before, y, later, rfl, List.forall_mem_cons.2 ⟨⟨b, hx⟩, hbefore⟩, hy⟩
    · cases h

end Warrant
