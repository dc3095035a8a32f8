/-!
# Finite sets of texts

`TextSet` holds its elements as a strictly ascending list, in the order of their code points. Two
sets with the same elements are therefore equal (`TextSet.ext`), and the list is the order in which
a set is written out. Every operation is described by its effect on membership.
-/

namespace Warrant

/-- A finite set of texts, listed in ascending order without repetition. -/
structure TextSet where
  toList : List String
  ascending : toList.Pairwise (· < ·)
deriving DecidableEq

namespace TextSet

instance : Membership String TextSet := ⟨fun s x => x ∈ s.toList⟩

theorem mem_def {x : String} {s : TextSet} : x ∈ s ↔ x ∈ s.toList := Iff.rfl

instance (x : String) (s : TextSet) : Decidable (x ∈ s) :=
  inferInstanceAs (Decidable (x ∈ s.toList))

instance : Repr TextSet := ⟨fun s n => reprPrec s.toList n⟩

/-! ### Equality is equality of elements -/

theorem eq_of_ascending : ∀ {xs ys : List String}, xs.Pairwise (· < ·) → ys.Pairwise (· < ·) →
    (∀ x, x ∈ xs ↔ x ∈ ys) → xs = ys
  | [], [], _, _, _ => rfl
  | [], y :: _, _, _, h => absurd ((h y).2 List.mem_cons_self) (by simp)
  | x :: _, [], _, _, h => absurd ((h x).1 List.mem_cons_self) (by simp)
  | x :: xs, y :: ys, hx, hy, h => by
    obtain ⟨hx0, hxs⟩ := List.pairwise_cons.1 hx
    obtain ⟨hy0, hys⟩ := List.pairwise_cons.1 hy
    have hxy : x = y := by
      rcases List.mem_cons.1 ((h x).1 List.mem_cons_self) with e | hxm
      · exact e
      rcases List.mem_cons.1 ((h y).2 List.mem_cons_self) with e | hym
      · exact e.symm
      exact absurd (String.lt_trans (hx0 y hym) (hy0 x hxm)) (String.lt_irrefl x)
    subst hxy
    congr 1
    refine eq_of_ascending hxs hys fun z => ⟨fun hz => ?_, fun hz => ?_⟩
    · rcases List.mem_cons.1 ((h z).1 (List.mem_cons_of_mem _ hz)) with e | hzm
      · exact absurd (e ▸ hx0 z hz) (String.lt_irrefl _)
      · exact hzm
    · rcases List.mem_cons.1 ((h z).2 (List.mem_cons_of_mem _ hz)) with e | hzm
      · exact absurd (e ▸ hy0 z hz) (String.lt_irrefl _)
      · exact hzm

@[ext] theorem ext {s t : TextSet} (h : ∀ x, x ∈ s ↔ x ∈ t) : s = t := by
  cases s with | mk xs hx =>
  cases t with | mk ys hy =>
  cases eq_of_ascending hx hy h
  rfl

/-! ### The empty set and insertion -/

def empty : TextSet := ⟨[], .nil⟩

instance : EmptyCollection TextSet := ⟨empty⟩
instance : Inhabited TextSet := ⟨∅⟩

@[simp] theorem not_mem_empty (x : String) : x ∉ (∅ : TextSet) := List.not_mem_nil

/-- Puts a text before the first one above it. -/
def insertAscending (x : String) : List String → List String
  | [] => [x]
  | y :: ys => if x < y then x :: y :: ys else if x = y then y :: ys else y :: insertAscending x ys

theorem mem_insertAscending {x z : String} {ys : List String} :
    z ∈ insertAscending x ys ↔ z = x ∨ z ∈ ys := by
  induction ys with
  | nil => simp [insertAscending]
  | cons y ys ih => grind [insertAscending]

theorem insertAscending_ascending {x : String} {ys : List String} (h : ys.Pairwise (· < ·)) :
    (insertAscending x ys).Pairwise (· < ·) := by
  induction ys with
  | nil => simp [insertAscending]
  | cons y ys ih =>
    obtain ⟨h0, h⟩ := List.pairwise_cons.1 h
    simp only [insertAscending]
    split
    · rename_i hxy
      refine List.pairwise_cons.2 ⟨fun z hz => ?_, List.pairwise_cons.2 ⟨h0, h⟩⟩
      rcases List.mem_cons.1 hz with rfl | hz
      · exact hxy
      · exact String.lt_trans hxy (h0 z hz)
    · split
      · exact List.pairwise_cons.2 ⟨h0, h⟩
      · rename_i hxy hne
        refine List.pairwise_cons.2 ⟨fun z hz => ?_, ih h⟩
        rcases mem_insertAscending.1 hz with rfl | hz
        · rcases String.le_total y z with hle | hle
          · exact Classical.byContradiction fun hn => hne (String.le_antisymm hn hle)
          · exact absurd (String.le_antisymm hle (Classical.byContradiction fun hn => by
              exact hxy (String.not_le.1 hn))) hne
        · exact h0 z hz

def insert (s : TextSet) (x : String) : TextSet :=
  ⟨insertAscending x s.toList, insertAscending_ascending s.ascending⟩

@[simp] theorem mem_insert {s : TextSet} {x z : String} : z ∈ s.insert x ↔ z = x ∨ z ∈ s :=
  mem_insertAscending

def ofList (xs : List String) : TextSet := xs.foldl insert ∅

theorem mem_foldl_insert {xs : List String} {s : TextSet} {z : String} :
    z ∈ xs.foldl insert s ↔ z ∈ s ∨ z ∈ xs := by
  induction xs generalizing s with
  | nil => simp
  | cons x xs ih => simp only [List.foldl_cons, ih, mem_insert, List.mem_cons]; grind

@[simp] theorem mem_ofList {xs : List String} {z : String} : z ∈ ofList xs ↔ z ∈ xs := by
  simp [ofList, mem_foldl_insert]

@[simp] theorem ofList_toList (s : TextSet) : ofList s.toList = s := by
  ext z
  exact mem_ofList

/-! ### Set algebra -/

def filter (p : String → Bool) (s : TextSet) : TextSet :=
  ⟨s.toList.filter p, s.ascending.filter p⟩

@[simp] theorem mem_filter {p : String → Bool} {s : TextSet} {z : String} :
    z ∈ s.filter p ↔ z ∈ s ∧ p z = true :=
  List.mem_filter

def union (s t : TextSet) : TextSet := t.toList.foldl insert s

instance : Union TextSet := ⟨union⟩

@[simp] theorem mem_union {s t : TextSet} {z : String} : z ∈ s ∪ t ↔ z ∈ s ∨ z ∈ t :=
  mem_foldl_insert

def diff (s t : TextSet) : TextSet := s.filter (· ∉ t)

instance : SDiff TextSet := ⟨diff⟩

@[simp] theorem mem_sdiff {s t : TextSet} {z : String} : z ∈ s \ t ↔ z ∈ s ∧ z ∉ t := by
  show z ∈ s.filter _ ↔ _
  simp

theorem sdiff_self (s : TextSet) : s \ s = ∅ := by
  ext x
  simp

def erase (s : TextSet) (x : String) : TextSet := s.filter (· ≠ x)

@[simp] theorem mem_erase {s : TextSet} {x z : String} : z ∈ s.erase x ↔ z ∈ s ∧ z ≠ x := by
  simp [erase]

theorem mem_foldl_union {ss : List TextSet} {s : TextSet} {z : String} :
    z ∈ ss.foldl (· ∪ ·) s ↔ z ∈ s ∨ ∃ t ∈ ss, z ∈ t := by
  induction ss generalizing s with
  | nil => simp
  | cons t ss ih => simp only [List.foldl_cons, ih, mem_union]; grind

instance : HasSubset TextSet := ⟨fun s t => ∀ x, x ∈ s → x ∈ t⟩

/-! ### Size -/

def size (s : TextSet) : Nat := s.toList.length

def isEmpty (s : TextSet) : Bool := s.toList.isEmpty

theorem isEmpty_iff {s : TextSet} : s.isEmpty = true ↔ s = ∅ := by
  cases s with | mk xs hx =>
  cases xs with
  | nil => exact ⟨fun _ => rfl, fun _ => rfl⟩
  | cons x xs => exact ⟨nofun, fun h => absurd (congrArg toList h) (List.cons_ne_nil x xs)⟩

end TextSet

end Warrant
