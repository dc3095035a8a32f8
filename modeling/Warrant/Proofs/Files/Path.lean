import Warrant.Files.Path

/-!
# The names of a longer path

Writing on at the end of a path, without a slash, changes its last name only (`names_append`).
-/

namespace Warrant.Files.Path

theorem exists_last_part (cs : List Char) :
    ∃ init last, (∀ ds, '/' ∉ ds → (cs ++ ds).splitOn '/' = init ++ [last ++ ds]) ∧
      (last = [] → cs = [] ∨ cs.getLast? = some '/') := by
  by_cases h : '/' ∈ cs
  · obtain ⟨after, before, hrev, hafter⟩ := List.eq_append_cons_of_mem (List.mem_reverse.2 h)
    have hcs : cs = before.reverse ++ '/' :: after.reverse := by
      rw [← List.reverse_reverse cs, hrev]
      simp
    have hlast : '/' ∉ after.reverse := fun hmem => hafter (List.mem_reverse.1 hmem)
    refine ⟨before.reverse.splitOn '/', after.reverse, fun ds hds => ?_, fun hnil => .inr ?_⟩
    · have hmem : '/' ∉ after.reverse ++ ds := by
        rw [List.mem_append]
        exact not_or.2 ⟨hlast, hds⟩
      rw [hcs, List.append_assoc, List.cons_append, List.splitOn_append_cons_self,
        List.splitOn_eq_singleton hmem]
    · rw [hcs, hnil, List.getLast?_concat]
  · refine ⟨[], cs, fun ds hds => ?_, .inl⟩
    have hmem : '/' ∉ cs ++ ds := by
      rw [List.mem_append]
      exact not_or.2 ⟨h, hds⟩
    rw [List.splitOn_eq_singleton hmem, List.nil_append]

theorem names_of_last {path : String} {init : List (List Char)} {last : List Char}
    (hsplit : path.toList.splitOn '/' = init ++ [last]) (hlast : last ≠ [])
    (hend : path.toList.getLast? ≠ some '/') :
    names path = (init.map String.ofList).filter (· ≠ "") ++ [String.ofList last] := by
  have hne : String.ofList last ≠ "" := fun h => hlast (String.ofList_inj.1 h)
  unfold names
  dsimp only
  rw [hsplit, if_neg hend, List.map_append, List.filter_append, List.append_nil]
  simp [hne]

theorem names_append {path suffix last : String} {init : List String}
    (h : names path = init ++ [last]) (hlast : last ≠ "") (hslash : '/' ∉ suffix.toList)
    (hsuffix : suffix ≠ "") : names (path ++ suffix) = init ++ [last ++ suffix] := by
  obtain ⟨parts, part, hsplit, hpart⟩ := exists_last_part path.toList
  have hnil := hsplit [] List.not_mem_nil
  rw [List.append_nil, List.append_nil] at hnil
  have hend : path.toList.getLast? ≠ some '/' := by
    intro hend
    unfold names at h
    rw [if_pos hend] at h
    have hnames := List.append_inj_right' h rfl
    exact hlast (List.singleton_inj.1 hnames).symm
  have hne : part ≠ [] := by
    intro he
    rcases hpart he with hempty | hslash
    · obtain rfl : path = "" := String.toList_eq_nil_iff.1 hempty
      exact absurd (congrArg List.length h) (by simp [names])
    · exact hend hslash
  rw [names_of_last hnil hne hend] at h
  have hinit := List.append_inj_left' h rfl
  have hpartlast : String.ofList part = last := List.singleton_inj.1 (List.append_inj_right' h rfl)
  have hlong : (path ++ suffix).toList.splitOn '/' = parts ++ [part ++ suffix.toList] := by
    rw [String.toList_append]
    exact hsplit suffix.toList hslash
  have hend' : (path ++ suffix).toList.getLast? ≠ some '/' := by
    have hchars : suffix.toList ≠ [] := fun he => hsuffix (String.toList_eq_nil_iff.1 he)
    rw [String.toList_append, List.getLast?_append, List.getLast?_eq_some_getLast hchars,
      Option.some_or]
    intro he
    exact hslash (Option.some.inj he ▸ List.getLast_mem hchars)
  rw [names_of_last hlong (by simp [hne]) hend', hinit, String.ofList_append, hpartlast,
    String.ofList_toList]

theorem isAbsolute_append {path suffix : String} (h : path ≠ "") :
    isAbsolute (path ++ suffix) = isAbsolute path := by
  have hchars : path.toList ≠ [] := fun he => h (String.toList_eq_nil_iff.1 he)
  obtain ⟨first, more, hcons⟩ := List.exists_cons_of_ne_nil hchars
  rw [isAbsolute, isAbsolute, String.toList_append, hcons]
  rfl

end Warrant.Files.Path
