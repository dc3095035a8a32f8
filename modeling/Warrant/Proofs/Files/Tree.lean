import Mathlib.Logic.Basic
import Warrant.Files.Tree

/-!
# Entries and what they stand for

Two entries may be names of one file. A content that one of them gets, the other has too, and
nothing else changes (`Filled`); a move takes one name to another location, and does nothing where
that is a name of the same file (`move_of_sameFile`). All other changes are to one entry only.
-/

namespace Warrant.Files.Tree

variable {t u : Tree} {l m d : Location} {n : Node} {content content' : ByteArray}

/-! ### Numbers -/

theorem node?_of_ne_nil (h : l ≠ []) : t.node? l = (t.number? l).bind fun i => t.nodes[i]? :=
  if_neg h

theorem ne_nil_of_number? (h : t.number? l ≠ none) : l ≠ [] := by
  rintro rfl
  exact h rfl

theorem node?_congr (hl : l ≠ []) (hm : m ≠ []) (hnumber : u.number? m = t.number? l)
    (hnodes : u.nodes = t.nodes) : u.node? m = t.node? l := by
  rw [node?_of_ne_nil hl, node?_of_ne_nil hm, hnumber, hnodes]

theorem node?_eq_none_iff (h : l ≠ []) : t.node? l = none ↔ t.number? l = none := by
  rw [node?_of_ne_nil h]
  cases hnumber : t.number? l with
  | none => simp
  | some i => simp [List.getElem?_eq_getElem (number?_lt hnumber)]

theorem number?_ne_none (h : t.node? l = some n) (hn : n ≠ .directory) : t.number? l ≠ none := by
  have hl : l ≠ [] := by
    rintro rfl
    exact hn (Option.some.inj h).symm
  rw [Ne, ← node?_eq_none_iff hl, h]
  nofun

theorem number?_erase_self : (t.erase l).number? l = none := by
  have hnone : (t.erase l).entries.find? (fun e => e.1 = l) = none := by
    rw [List.find?_eq_none]
    intro e he
    have hkept := (List.mem_filter.1 he).2
    simpa using hkept
  rw [number?, hnone, Option.map_none, ite_self]

theorem number?_erase_of_ne (h : d ≠ l) : (t.erase l).number? d = t.number? d := by
  unfold number? erase restrict
  split
  · rfl
  · rw [List.find?_filter]
    congr 2
    funext e
    by_cases he : e.1 = d <;> simp [he, h]

theorem number?_put_self (h : l ≠ []) : (t.put l n).number? l = some t.nodes.length := by
  unfold number? put
  rw [if_neg h, List.find?_cons_of_pos (by simp)]
  rfl

theorem number?_put_of_ne (h : d ≠ l) : (t.put l n).number? d = t.number? d := by
  have hfind : (t.put l n).entries.find? (fun e => e.1 = d) =
      (t.erase l).entries.find? (fun e => e.1 = d) :=
    List.find?_cons_of_neg (by simpa using Ne.symm h)
  rw [← number?_erase_of_ne (t := t) h, number?, number?, hfind]

theorem number?_fill : (t.fill l content).number? d = t.number? d := by
  unfold fill
  split <;> rfl

theorem number?_share_self (h : m ≠ []) : (t.share l m).number? m = t.number? l := by
  have herased : (t.erase m).entries.find? (fun e => e.1 = m) = none := by
    have hnone : (t.erase m).number? m = none := number?_erase_self
    rwa [number?, if_neg h, Option.map_eq_none_iff] at hnone
  rw [number?, if_neg h]
  unfold share
  rw [List.find?_append, herased, Option.or_none]
  cases t.number? l with
  | none => rfl
  | some i => simp

theorem number?_share_of_ne (h : d ≠ m) : (t.share l m).number? d = t.number? d := by
  have hshared : ((t.number? l).toList.map fun i => (m, i)).find? (fun e => e.1 = d) = none := by
    rw [List.find?_eq_none]
    intro e he
    obtain ⟨i, -, rfl⟩ := List.mem_map.1 he
    simpa using Ne.symm h
  have hfind : (t.share l m).entries.find? (fun e => e.1 = d) =
      (t.erase m).entries.find? (fun e => e.1 = d) := by
    unfold share
    rw [List.find?_append, hshared, Option.none_or]
  rw [← number?_erase_of_ne (t := t) h, number?, number?, hfind]

/-! ### One entry -/

theorem node?_erase_self (h : l ≠ []) : (t.erase l).node? l = none := by
  rw [node?_of_ne_nil h, number?_erase_self]
  rfl

theorem node?_erase_of_ne (h : d ≠ l) : (t.erase l).node? d = t.node? d := by
  unfold node?
  rw [number?_erase_of_ne h]
  rfl

/-- A tree without an entry differs in that, or differed before. -/
theorem eq_or_differs_of_erase (h : (u.erase l).node? d ≠ t.node? d) :
    d = l ∨ u.node? d ≠ t.node? d := by
  by_cases hd : d = l
  · exact .inl hd
  · rw [node?_erase_of_ne hd] at h
    exact .inr h

theorem node?_put_self (h : l ≠ []) : (t.put l n).node? l = some n := by
  rw [node?_of_ne_nil h, number?_put_self h]
  exact List.getElem?_concat_length

theorem node?_put_of_ne (h : d ≠ l) : (t.put l n).node? d = t.node? d := by
  unfold node?
  rw [number?_put_of_ne h]
  split
  · rfl
  · cases hnumber : t.number? d with
    | none => rfl
    | some i => exact List.getElem?_append_left (number?_lt hnumber)

theorem node?_share_self (hl : l ≠ []) (hm : m ≠ []) : (t.share l m).node? m = t.node? l :=
  node?_congr hl hm (number?_share_self hm) rfl

theorem node?_share_of_ne (h : d ≠ m) : (t.share l m).node? d = t.node? d := by
  unfold node?
  rw [number?_share_of_ne h]
  rfl

/-! ### Names of one file -/

namespace SameFile

theorem refl (t : Tree) (l : Location) : t.SameFile l l := .inl rfl

theorem symm (h : t.SameFile l m) : t.SameFile m l := by
  obtain rfl | ⟨heq, hsome⟩ := h
  · exact .inl rfl
  · exact .inr ⟨heq.symm, heq ▸ hsome⟩

theorem trans (h : t.SameFile l m) (h' : t.SameFile m d) : t.SameFile l d := by
  obtain rfl | ⟨heq, hsome⟩ := h
  · exact h'
  obtain rfl | ⟨heq', -⟩ := h'
  · exact .inr ⟨heq, hsome⟩
  · exact .inr ⟨heq.trans heq', hsome⟩

theorem number?_eq (h : t.SameFile l m) : t.number? l = t.number? m := by
  obtain rfl | ⟨heq, -⟩ := h
  · rfl
  · exact heq

theorem node?_eq (h : t.SameFile l m) : t.node? l = t.node? m := by
  obtain rfl | ⟨heq, hsome⟩ := h
  · rfl
  · exact node?_congr (ne_nil_of_number? (heq ▸ hsome)) (ne_nil_of_number? hsome) heq rfl

theorem node?_ne_none (h : t.SameFile l m) (hne : l ≠ m) : t.node? l ≠ none := by
  obtain rfl | ⟨-, hsome⟩ := h
  · exact absurd rfl hne
  · exact (node?_eq_none_iff (ne_nil_of_number? hsome)).not.2 hsome

end SameFile

theorem sameFile_congr (hl : u.number? l = t.number? l) (hm : u.number? m = t.number? m) :
    u.SameFile l m ↔ t.SameFile l m := by
  unfold SameFile
  rw [hl, hm]

/-- What is new is the file of no entry that was there. -/
theorem sameFile_put_self (hl : l ≠ []) (h : t.number? l = none) :
    (t.put l n).SameFile l d ↔ t.SameFile l d := by
  have hbefore : t.SameFile l d ↔ l = d := or_iff_left fun hsame => hsame.2 h
  rw [hbefore]
  refine ⟨fun hsame => ?_, .inl⟩
  obtain heq | ⟨heq, -⟩ := hsame
  · exact heq
  refine Classical.byContradiction fun hne => ?_
  rw [number?_put_self hl, number?_put_of_ne (Ne.symm hne)] at heq
  exact Nat.lt_irrefl _ (number?_lt heq.symm)

/-! ### Contents -/

theorem node?_fill_of_sameFile (h : t.SameFile l d) (hl : t.number? l ≠ none) :
    (t.fill l content).node? d = some (.file content) := by
  obtain ⟨i, hi⟩ := Option.ne_none_iff_exists'.1 hl
  have hd : t.number? d = some i := h.number?_eq.symm.trans hi
  have hnil : d ≠ [] := ne_nil_of_number? (by rw [hd]; nofun)
  rw [node?_of_ne_nil hnil, number?_fill, hd]
  unfold fill
  rw [hi]
  exact List.getElem?_set_self (number?_lt hi)

theorem node?_fill_of_not_sameFile (h : ¬ t.SameFile l d) :
    (t.fill l content).node? d = t.node? d := by
  unfold node?
  rw [number?_fill]
  cases hd : t.number? d with
  | none => rfl
  | some j =>
    congr 1
    unfold fill
    cases hl : t.number? l with
    | none => rfl
    | some i =>
      refine List.getElem?_set_ne ?_
      rintro rfl
      exact h (.inr ⟨hl.trans hd.symm, by rw [hl]; nofun⟩)

theorem home_fill : (t.fill l content).home = t.home := by
  unfold fill
  split <;> rfl

/-- The file at a location was opened and has a content. It has that under all its names, and
nothing else is different. -/
structure Filled (t u : Tree) (l : Location) (content : ByteArray) : Prop where
  home : u.home = t.home
  content : ∀ d, t.SameFile l d → u.node? d = some (.file content)
  others : ∀ d, ¬ t.SameFile l d → u.node? d = t.node? d
  sameFile : ∀ d e, u.SameFile d e ↔ t.SameFile d e

theorem filled_fill (h : t.number? l ≠ none) : t.Filled (t.fill l content) l content where
  home := home_fill
  content _ hd := node?_fill_of_sameFile hd h
  others _ hd := node?_fill_of_not_sameFile hd
  sameFile _ _ := sameFile_congr number?_fill number?_fill

theorem filled_put (hl : l ≠ []) (h : t.number? l = none) :
    t.Filled (t.put l (.file content)) l content where
  home := rfl
  content d hd := by
    obtain rfl | ⟨-, hsome⟩ := hd
    · exact node?_put_self hl
    · exact absurd h hsome
  others d hd := node?_put_of_ne fun heq => hd (.inl heq.symm)
  sameFile d e := by
    by_cases hd : d = l
    · rw [hd]
      exact sameFile_put_self hl h
    by_cases he : e = l
    · rw [he]
      exact ⟨fun hsame => ((sameFile_put_self hl h).1 hsame.symm).symm,
        fun hsame => ((sameFile_put_self hl h).2 hsame.symm).symm⟩
    · exact sameFile_congr (number?_put_of_ne hd) (number?_put_of_ne he)

namespace Filled

theorem content_self (h : t.Filled u l content) : u.node? l = some (.file content) :=
  h.content l (.refl t l)

theorem fill (h : t.Filled u l content) : t.Filled (u.fill l content') l content' := by
  have hagain : u.Filled (u.fill l content') l content' :=
    filled_fill (number?_ne_none h.content_self nofun)
  refine ⟨hagain.home.trans h.home, fun d hd => ?_, fun d hd => ?_, fun d e => ?_⟩
  · exact hagain.content d ((h.sameFile l d).2 hd)
  · rw [hagain.others d ((h.sameFile l d).not.2 hd), h.others d hd]
  · rw [hagain.sameFile, h.sameFile]

theorem differs (h : t.Filled u l content) (hd : u.node? d ≠ t.node? d) : t.SameFile l d :=
  Classical.byContradiction fun hsame => hd (h.others d hsame)

end Filled

/-! ### Moves -/

theorem home_move : (t.move l m).home = t.home := by
  unfold move
  split <;> rfl

theorem move_of_sameFile (h : t.SameFile l m) : t.move l m = t := if_pos h

theorem node?_move_source (hl : l ≠ []) (h : ¬ t.SameFile l m) : (t.move l m).node? l = none := by
  rw [move, if_neg h, node?_erase_self hl]

theorem node?_move_target (hl : l ≠ []) (hm : m ≠ []) : (t.move l m).node? m = t.node? l := by
  by_cases h : t.SameFile l m
  · rw [move_of_sameFile h, h.node?_eq]
  · have hne : m ≠ l := fun heq => h (.inl heq.symm)
    rw [move, if_neg h, node?_erase_of_ne hne, node?_share_self hl hm]

theorem node?_move_of_ne (hl : d ≠ l) (hm : d ≠ m) : (t.move l m).node? d = t.node? d := by
  unfold move
  split
  · rfl
  · rw [node?_erase_of_ne hl, node?_share_of_ne hm]

theorem eq_of_move_differs (h : (t.move l m).node? d ≠ t.node? d) : d = l ∨ d = m :=
  Classical.byContradiction fun hnot =>
    h (node?_move_of_ne (fun hl => hnot (.inl hl)) fun hm => hnot (.inr hm))

end Warrant.Files.Tree
