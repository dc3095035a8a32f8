import Warrant.Proofs.Json.Values

/-!
# Arrays of strings

`SpellsTexts` is the grammar of a text that is an array of strings: any blanks between its parts,
any spelling of the strings. The reader accepts just these texts as arrays of strings, and answers
the strings that they spell, in their order (`Value.parse?_eq_texts_iff`).
-/

namespace Warrant.Json

/-! ### The grammar -/

/-- The rest follows the input's first characters, which are blanks. -/
inductive Blanks : List Char → List Char → Prop where
  | done {cs : List Char} : Blanks cs cs
  | pass {c : Char} {cs rest : List Char} (hc : isBlank c) (h : Blanks cs rest) :
      Blanks (c :: cs) rest

/-- The input begins with the items of an array, from the first one on, and its closing bracket;
each item is a string. -/
inductive SpellsItems : List Char → List String → List Char → Prop where
  | last {cs inside after rest : List Char} {s : String} (hopen : Blanks cs ('"' :: inside))
      (hs : Spells inside s.toList after) (hclose : Blanks after (']' :: rest)) :
      SpellsItems cs [s] rest
  | next {cs inside after tail rest : List Char} {s : String} {ss : List String}
      (hopen : Blanks cs ('"' :: inside)) (hs : Spells inside s.toList after)
      (hcomma : Blanks after (',' :: tail)) (h : SpellsItems tail ss rest) :
      SpellsItems cs (s :: ss) rest

inductive SpellsTexts : List Char → List String → Prop where
  | empty {cs inside after : List Char} (hopen : Blanks cs ('[' :: inside))
      (hclose : Blanks inside (']' :: after)) (hend : Blanks after []) : SpellsTexts cs []
  | items {cs inside after : List Char} {ss : List String} (hopen : Blanks cs ('[' :: inside))
      (h : SpellsItems inside ss after) (hend : Blanks after []) : SpellsTexts cs ss

open Value

variable {c : Char} {cs cs' tail rest : List Char} {s : String} {ss : List String} {fuel : Nat}
  {v : Value} {vs : List Value}

/-! ### Blanks -/

theorem Blanks.trans (h : Blanks cs cs') (h' : Blanks cs' rest) : Blanks cs rest := by
  induction h with
  | done => exact h'
  | pass hc _ ih => exact .pass hc (ih h')

theorem Blanks.length_le (h : Blanks cs rest) : rest.length ≤ cs.length := by
  induction h with
  | done => exact Nat.le_refl _
  | pass _ _ ih => exact Nat.le_succ_of_le ih

theorem blanks_skipBlanks (cs : List Char) : Blanks cs (skipBlanks cs) := by
  induction cs with
  | nil => exact .done
  | cons c cs ih =>
    by_cases hc : isBlank c
    · have hskip : skipBlanks (c :: cs) = skipBlanks cs := List.dropWhile_cons_of_pos hc
      rw [hskip]
      exact .pass hc ih
    · have hskip : skipBlanks (c :: cs) = c :: cs := List.dropWhile_cons_of_neg hc
      rw [hskip]
      exact .done

theorem Blanks.skipBlanks_eq (h : Blanks cs rest) : skipBlanks cs = skipBlanks rest := by
  induction h with
  | done => rfl
  | pass hc _ ih => exact (List.dropWhile_cons_of_pos hc).trans ih

theorem Blanks.skipBlanks_cons (h : Blanks cs (c :: rest)) (hc : isBlank c = false) :
    skipBlanks cs = c :: rest :=
  h.skipBlanks_eq.trans (List.dropWhile_cons_of_neg (by simp [hc]))

theorem blanks_of_skipBlanks (h : skipBlanks cs = rest) : Blanks cs rest :=
  h ▸ blanks_skipBlanks cs

theorem blanks_nil_iff : Blanks cs [] ↔ (skipBlanks cs).isEmpty = true := by
  rw [List.isEmpty_iff]
  exact ⟨fun h => h.skipBlanks_eq, blanks_of_skipBlanks⟩

/-! ### Reading what is spelled -/

theorem SpellsItems.length_lt (h : SpellsItems cs ss rest) :
    ss.length + rest.length < cs.length := by
  induction h with
  | last hopen hs hclose =>
    have h₁ := hopen.length_le
    have h₂ := hs.length_lt
    have h₃ := hclose.length_le
    simp only [List.length_cons, List.length_nil] at h₁ h₃ ⊢
    omega
  | next hopen hs hcomma _ ih =>
    have h₁ := hopen.length_le
    have h₂ := hs.length_lt
    have h₃ := hcomma.length_le
    simp only [List.length_cons] at h₁ h₃ ⊢
    omega

/-- One step of the descent for each item, and one for the last string. -/
theorem SpellsItems.items? (h : SpellsItems cs ss rest) (hfuel : ss.length < fuel) :
    Json.items? fuel cs = some (ss.map .text, rest) := by
  induction h generalizing fuel with
  | last hopen hs hclose =>
    rw [List.length_singleton] at hfuel
    obtain ⟨fuel, rfl⟩ : ∃ f, fuel = f + 2 := ⟨fuel - 2, by omega⟩
    exact items?_last (value?_string (hopen.skipBlanks_cons rfl) hs) (hclose.skipBlanks_cons rfl)
  | next hopen hs hcomma _ ih =>
    rw [List.length_cons] at hfuel
    obtain ⟨fuel, rfl⟩ : ∃ f, fuel = f + 2 := ⟨fuel - 2, by omega⟩
    rw [items?_next (value?_string (hopen.skipBlanks_cons rfl) hs) (hcomma.skipBlanks_cons rfl),
      ih (by omega)]
    rfl

theorem SpellsItems.of_blanks (h : SpellsItems cs' ss rest) (hblanks : Blanks cs cs') :
    SpellsItems cs ss rest := by
  cases h with
  | last hopen hs hclose => exact .last (hblanks.trans hopen) hs hclose
  | next hopen hs hcomma h => exact .next (hblanks.trans hopen) hs hcomma h

theorem SpellsItems.exists_quote (h : SpellsItems cs ss rest) :
    ∃ inside, skipBlanks cs = '"' :: inside ∧ SpellsItems ('"' :: inside) ss rest := by
  cases h with
  | last hopen hs hclose => exact ⟨_, hopen.skipBlanks_cons rfl, .last .done hs hclose⟩
  | next hopen hs hcomma h => exact ⟨_, hopen.skipBlanks_cons rfl, .next .done hs hcomma h⟩

theorem SpellsTexts.value? (h : SpellsTexts cs ss) :
    ∃ rest, Json.value? (2 * cs.length + 2) cs = some (texts ss, rest) ∧ Blanks rest [] := by
  cases h with
  | empty hopen hclose hend =>
    refine ⟨_, ?_, hend⟩
    rw [value?_array (hopen.skipBlanks_cons rfl), hclose.skipBlanks_cons rfl]
    rfl
  | @items inside after _ hopen h hend =>
    obtain ⟨inside', hskip, h'⟩ := h.exists_quote
    refine ⟨after, ?_, hend⟩
    have hlength := h.length_lt
    have hinside := hopen.length_le
    rw [List.length_cons] at hinside
    rw [value?_openArray (hopen.skipBlanks_cons rfl) hskip (by decide), h'.items? (by omega)]
    rfl

/-! ### Spelling what is read -/

theorem number_of_number? (h : number? cs = some (v, rest)) : ∃ literal, v = .number literal := by
  unfold number? at h
  dsimp only at h
  obtain ⟨_, -, h⟩ := Option.bind_eq_some_iff.1 h
  obtain ⟨_, -, h⟩ := Option.bind_eq_some_iff.1 h
  obtain ⟨_, -, h⟩ := Option.bind_eq_some_iff.1 h
  cases h
  exact ⟨_, rfl⟩

/-- A value that is a string begins with a quotation mark, one that is an array with a bracket, and
any other is neither. -/
theorem value?_cases (h : value? fuel cs = some (v, rest)) :
    (∃ inside content, skipBlanks cs = '"' :: inside ∧ v = .string content ∧
      string? inside = some (content, rest)) ∨
    (∃ inside fuel' vs, fuel = fuel' + 1 ∧ skipBlanks cs = '[' :: inside ∧ v = .array vs ∧
      (vs = [] ∧ skipBlanks inside = ']' :: rest ∨
        items? fuel' (skipBlanks inside) = some (vs, rest))) ∨
    ((∀ content, v ≠ .string content) ∧ ∀ vs, v ≠ .array vs) := by
  cases fuel with
  | zero => cases h
  | succ fuel =>
    rw [value?] at h
    split at h
    · rename_i inside hopen
      obtain ⟨⟨content, after⟩, hstring, h⟩ := Option.bind_eq_some_iff.1 h
      cases h
      exact .inl ⟨inside, content, hopen, rfl, hstring⟩
    · rename_i inside hopen
      refine .inr (.inl ⟨inside, fuel, ?_⟩)
      split at h
      · rename_i hclose
        cases h
        exact ⟨[], rfl, hopen, rfl, .inl ⟨rfl, hclose⟩⟩
      · obtain ⟨⟨vs, after⟩, hitems, h⟩ := Option.bind_eq_some_iff.1 h
        cases h
        exact ⟨vs, rfl, hopen, rfl, .inr hitems⟩
    all_goals right; right
    · split at h
      · cases h
        exact ⟨nofun, nofun⟩
      · obtain ⟨_, -, h⟩ := Option.bind_eq_some_iff.1 h
        cases h
        exact ⟨nofun, nofun⟩
    · obtain ⟨_, -, h⟩ := Option.map_eq_some_iff.1 h
      cases h
      exact ⟨nofun, nofun⟩
    · obtain ⟨_, -, h⟩ := Option.map_eq_some_iff.1 h
      cases h
      exact ⟨nofun, nofun⟩
    · obtain ⟨_, -, h⟩ := Option.map_eq_some_iff.1 h
      cases h
      exact ⟨nofun, nofun⟩
    · obtain ⟨l, rfl⟩ := number_of_number? h
      exact ⟨nofun, nofun⟩

theorem text_of_value? (h : value? fuel cs = some (.text s, rest)) :
    ∃ inside, Blanks cs ('"' :: inside) ∧ Spells inside s.toList rest := by
  obtain ⟨inside, content, hopen, hv, hstring⟩ | ⟨_, _, _, -, -, hv, -⟩ | ⟨hv, -⟩ := value?_cases h
  · cases hv
    exact ⟨inside, blanks_of_skipBlanks hopen, string?_eq_iff.1 hstring⟩
  · cases hv
  · exact absurd rfl (hv _)

theorem spellsItems_of_items? (h : items? fuel cs = some (ss.map .text, rest)) :
    SpellsItems cs ss rest := by
  induction fuel generalizing cs ss with
  | zero => cases h
  | succ fuel ih =>
    obtain ⟨⟨v, after⟩, hv, -⟩ := Option.bind_eq_some_iff.1 h
    rw [items?_of_value hv] at h
    split at h
    · rename_i hcomma
      obtain ⟨⟨vs, _⟩, hitems, h⟩ := Option.bind_eq_some_iff.1 h
      cases ss with
      | nil => cases h
      | cons s ss =>
        cases h
        obtain ⟨inside, hopen, hs⟩ := text_of_value? hv
        exact .next hopen hs (blanks_of_skipBlanks hcomma) (ih hitems)
    · rename_i hclose
      cases ss with
      | nil => cases h
      | cons s ss =>
        obtain ⟨hvs, rfl⟩ := Prod.mk.inj (Option.some.inj h)
        obtain ⟨rfl, hss⟩ := List.cons.inj hvs
        obtain rfl := List.map_eq_nil_iff.1 hss.symm
        obtain ⟨inside, hopen, hs⟩ := text_of_value? hv
        exact .last hopen hs (blanks_of_skipBlanks hclose)
    · cases h

theorem spellsTexts_of_value? (h : value? fuel cs = some (texts ss, rest)) (hend : Blanks rest []) :
    SpellsTexts cs ss := by
  obtain ⟨_, _, -, hv, -⟩ | ⟨inside, fuel', vs, -, hopen, hv, hvs⟩ | ⟨-, hv⟩ := value?_cases h
  · cases hv
  · obtain rfl : ss.map .text = vs := Value.array.inj hv
    obtain ⟨hnil, hclose⟩ | hitems := hvs
    · obtain rfl := List.map_eq_nil_iff.1 hnil
      exact .empty (blanks_of_skipBlanks hopen) (blanks_of_skipBlanks hclose) hend
    · exact .items (blanks_of_skipBlanks hopen)
        ((spellsItems_of_items? hitems).of_blanks (blanks_skipBlanks inside)) hend
  · exact absurd rfl (hv _)

/-- What is read as an array of strings is the strings that the text spells. -/
theorem Value.parse?_eq_texts_iff {text : String} :
    parse? text = some (texts ss) ↔ SpellsTexts text.toList ss := by
  constructor
  · intro h
    obtain ⟨⟨v, rest⟩, hv, h⟩ := Option.bind_eq_some_iff.1 h
    dsimp only at h
    split at h
    · rename_i hend
      cases h
      exact spellsTexts_of_value? hv (blanks_nil_iff.2 hend)
    · cases h
  · intro h
    obtain ⟨rest, hv, hend⟩ := h.value?
    unfold parse?
    dsimp only
    rw [hv]
    exact if_pos (blanks_nil_iff.1 hend)

end Warrant.Json
