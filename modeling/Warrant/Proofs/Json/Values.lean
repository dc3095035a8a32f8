import Warrant.Proofs.Json.Strings

/-!
# A written value reads back

A plain value, one without numbers whose strings all stand for characters, is read from its compact
text (`Value.parse?_compact`). What follows the text of a value in a longer one is left
(`ReadsBack`), so arrays and objects are read piece by piece. Two steps of the descent for each
character are enough.
-/

namespace Warrant.Json

namespace Value

/-- A value without numbers, whose strings and keys stand for characters. -/
inductive Plain : Value → Prop where
  | null : Plain null
  | bool (b : Bool) : Plain (bool b)
  | text (s : String) : Plain (text s)
  | array {items : List Value} (h : ∀ v ∈ items, Plain v) : Plain (array items)
  | object {members : List (Text × Value)} (hkeys : ∀ m ∈ members, ∃ s, m.1 = some s)
      (h : ∀ m ∈ members, Plain m.2) : Plain (object members)

theorem plain_texts (ss : List String) : (texts ss).Plain := by
  refine .array fun v hv => ?_
  obtain ⟨s, -, rfl⟩ := List.mem_map.1 hv
  exact .text s

theorem plain_record {members : List (String × Value)} (h : ∀ m ∈ members, m.2.Plain) :
    (record members).Plain := by
  refine .object (fun _ hm => ?_) fun _ hm => ?_
  · obtain ⟨m, -, rfl⟩ := List.mem_map.1 hm
    exact ⟨m.1, rfl⟩
  · obtain ⟨m, hmem, rfl⟩ := List.mem_map.1 hm
    exact h m hmem

end Value

open Value

variable {v : Value} {fuel : Nat} {c : Char} {cs cs' tail rest : List Char}

/-! ### Pieces -/

theorem value?_string {s : String} (hopen : skipBlanks cs = '"' :: cs')
    (hs : Spells cs' s.toList rest) : value? (fuel + 1) cs = some (.text s, rest) := by
  rw [value?, hopen]
  show (string? cs' >>= fun r => some (Value.string r.1, r.2)) = _
  rw [string?_eq_iff.2 hs]
  rfl

theorem value?_quote {s : String} (h : skipBlanks cs = quote s ++ rest) :
    value? (fuel + 1) cs = some (.text s, rest) :=
  value?_string (h.trans (quote_append s rest)) (spells_encode s.toList rest)

theorem value?_array (hopen : skipBlanks cs = '[' :: cs') :
    value? (fuel + 1) cs = match skipBlanks cs' with
      | ']' :: rest => some (.array [], rest)
      | cs => items? fuel cs >>= fun r => some (.array r.1, r.2) := by
  rw [value?, hopen]
  rfl

theorem value?_openArray (hopen : skipBlanks cs = '[' :: cs') (hitem : skipBlanks cs' = c :: tail)
    (hclose : c ≠ ']') :
    value? (fuel + 1) cs = (items? fuel (c :: tail)).map fun r => (.array r.1, r.2) := by
  rw [value?_array hopen, hitem]
  split
  · rename_i h
    exact absurd (List.cons.inj h).1 hclose
  · cases items? fuel (c :: tail) <;> rfl

theorem items?_of_value (h : value? fuel cs = some (v, cs')) :
    items? (fuel + 1) cs = match skipBlanks cs' with
      | ',' :: cs => items? fuel cs >>= fun r => some (v :: r.1, r.2)
      | ']' :: rest => some ([v], rest)
      | _ => none := by
  rw [items?, h]
  rfl

theorem items?_last (h : value? fuel cs = some (v, cs')) (hclose : skipBlanks cs' = ']' :: rest) :
    items? (fuel + 1) cs = some ([v], rest) := by
  rw [items?_of_value h, hclose]
  rfl

theorem items?_next (h : value? fuel cs = some (v, cs')) (hcomma : skipBlanks cs' = ',' :: tail) :
    items? (fuel + 1) cs = (items? fuel tail).map fun r => (v :: r.1, r.2) := by
  rw [items?_of_value h, hcomma]
  show (items? fuel tail >>= _) = _
  cases items? fuel tail <;> rfl

theorem value?_openObject (s : String) :
    value? (fuel + 1) ('\x7b' :: (quote s ++ cs)) =
      (members? fuel (quote s ++ cs)).map fun r => (.object r.1, r.2) := by
  rw [value?]
  show (members? fuel (quote s ++ cs) >>= fun r => some (object r.1, r.2)) = _
  cases members? fuel (quote s ++ cs) <;> rfl

theorem members?_last (s : String) (h : value? fuel cs = some (v, '\x7d' :: rest)) :
    members? (fuel + 1) (quote s ++ ':' :: cs) = some ([(some s, v)], rest) := by
  rw [members?, quote_append]
  show (string? (encode s.toList ++ '"' :: ':' :: cs) >>= _) = _
  rw [string?_quote]
  show (value? fuel cs >>= _) = _
  rw [h]
  rfl

theorem members?_next (s : String) (h : value? fuel cs = some (v, ',' :: cs')) :
    members? (fuel + 1) (quote s ++ ':' :: cs) =
      (members? fuel cs').map fun r => ((some s, v) :: r.1, r.2) := by
  rw [members?, quote_append]
  show (string? (encode s.toList ++ '"' :: ':' :: cs) >>= _) = _
  rw [string?_quote]
  show (value? fuel cs >>= _) = _
  rw [h]
  show (members? fuel cs' >>= _) = _
  cases members? fuel cs' <;> rfl

/-! ### Values -/

/-- With enough fuel the value is read from its characters, and what follows them is left. -/
def ReadsBack (v : Value) : Prop :=
  ∀ (fuel : Nat) (rest : List Char), 2 * (chars v).length ≤ fuel →
    value? fuel (chars v ++ rest) = some (v, rest)

/-- The text of a plain value starts with a character that is no blank and closes no array. -/
theorem Value.Plain.exists_head (h : v.Plain) :
    ∃ c cs, chars v = c :: cs ∧ isBlank c = false ∧ c ≠ ']' := by
  cases h with
  | null => exact ⟨_, _, rfl, rfl, by decide⟩
  | bool b => cases b <;> exact ⟨_, _, rfl, rfl, by decide⟩
  | text s => exact ⟨_, _, rfl, rfl, by decide⟩
  | @array items => cases items <;> exact ⟨_, _, rfl, rfl, by decide⟩
  | @object members => cases members <;> exact ⟨_, _, rfl, rfl, by decide⟩

/-- There is a character to read, so a first step of the descent is taken. -/
theorem Value.Plain.readsBack_of_succ (h : v.Plain)
    (hread : ∀ (fuel : Nat) (rest : List Char), 2 * (chars v).length ≤ fuel + 1 →
      value? (fuel + 1) (chars v ++ rest) = some (v, rest)) : ReadsBack v := by
  intro fuel rest hfuel
  obtain ⟨c, cs, hhead, -⟩ := h.exists_head
  cases fuel with
  | zero =>
    rw [hhead, List.length_cons] at hfuel
    omega
  | succ fuel => exact hread fuel rest hfuel

theorem items?_readsBack {vs : List Value} (h : ∀ w ∈ v :: vs, ReadsBack w)
    (hfuel : 2 * (chars v ++ itemChars vs).length < fuel) :
    items? fuel (chars v ++ (itemChars vs ++ rest)) = some (v :: vs, rest) := by
  induction vs generalizing v fuel with
  | nil =>
    obtain ⟨fuel, rfl⟩ : ∃ f, fuel = f + 1 := ⟨fuel - 1, by omega⟩
    rw [List.length_append] at hfuel
    exact items?_last (h v List.mem_cons_self fuel _ (by omega)) rfl
  | cons w ws ih =>
    obtain ⟨fuel, rfl⟩ : ∃ f, fuel = f + 1 := ⟨fuel - 1, by omega⟩
    have hchars : itemChars (w :: ws) = ',' :: (chars w ++ itemChars ws) := rfl
    rw [hchars, List.length_append, List.length_cons] at hfuel
    have hrest : items? fuel (chars w ++ (itemChars ws ++ rest)) = some (w :: ws, rest) :=
      ih (fun x hx => h x (List.mem_cons_of_mem v hx)) (by omega)
    rw [hchars, List.cons_append, List.append_assoc,
      items?_next (h v List.mem_cons_self fuel _ (by omega)) rfl, hrest]
    rfl

theorem readsBack_array {items : List Value} (hplain : ∀ v ∈ items, v.Plain)
    (h : ∀ v ∈ items, ReadsBack v) : ReadsBack (array items) := by
  refine (Plain.array hplain).readsBack_of_succ fun fuel rest hfuel => ?_
  cases items with
  | nil => rfl
  | cons v vs =>
    have hchars : chars (array (v :: vs)) = '[' :: (chars v ++ itemChars vs) := rfl
    rw [hchars, List.length_cons] at hfuel
    have hitems : items? fuel (chars v ++ (itemChars vs ++ rest)) = some (v :: vs, rest) :=
      items?_readsBack h (by omega)
    obtain ⟨c, cs, hhead, hblank, hclose⟩ := (hplain v List.mem_cons_self).exists_head
    rw [hchars, List.cons_append, List.append_assoc]
    rw [hhead, List.cons_append] at hitems ⊢
    have hskip : skipBlanks (c :: (cs ++ (itemChars vs ++ rest))) = c :: _ :=
      List.dropWhile_cons_of_neg (by simp [hblank])
    rw [value?_openArray rfl hskip hclose, hitems]
    rfl

theorem members?_readsBack {s : String} {ms : List (Text × Value)}
    (hkeys : ∀ m ∈ ms, ∃ s, m.1 = some s) (hv : ReadsBack v) (hms : ∀ m ∈ ms, ReadsBack m.2)
    (hfuel : 2 * (quote s ++ ':' :: (chars v ++ memberChars ms)).length < fuel) :
    members? fuel (quote s ++ ':' :: (chars v ++ (memberChars ms ++ rest))) =
      some ((some s, v) :: ms, rest) := by
  induction ms generalizing s v fuel with
  | nil =>
    obtain ⟨fuel, rfl⟩ : ∃ f, fuel = f + 1 := ⟨fuel - 1, by omega⟩
    rw [List.length_append, List.length_cons, List.length_append] at hfuel
    exact members?_last s (hv fuel _ (by omega))
  | cons m ms ih =>
    obtain ⟨fuel, rfl⟩ : ∃ f, fuel = f + 1 := ⟨fuel - 1, by omega⟩
    obtain ⟨key, w⟩ := m
    obtain ⟨k, rfl⟩ : ∃ k, key = some k := hkeys _ List.mem_cons_self
    have hchars : memberChars ((some k, w) :: ms) =
        ',' :: (quote k ++ ':' :: (chars w ++ memberChars ms)) := rfl
    rw [hchars, List.length_append, List.length_cons, List.length_append, List.length_cons]
      at hfuel
    have hrest : members? fuel (quote k ++ ':' :: (chars w ++ (memberChars ms ++ rest))) =
        some ((some k, w) :: ms, rest) := by
      refine ih (fun x hx => hkeys x (List.mem_cons_of_mem _ hx)) (hms _ List.mem_cons_self)
        (fun x hx => hms x (List.mem_cons_of_mem _ hx)) ?_
      omega
    rw [hchars, List.cons_append, List.append_assoc, List.cons_append, List.append_assoc,
      members?_next s (hv fuel _ (by omega)), hrest]
    rfl

theorem readsBack_object {members : List (Text × Value)} (hkeys : ∀ m ∈ members, ∃ s, m.1 = some s)
    (hplain : ∀ m ∈ members, m.2.Plain) (h : ∀ m ∈ members, ReadsBack m.2) :
    ReadsBack (object members) := by
  refine (Plain.object hkeys hplain).readsBack_of_succ fun fuel rest hfuel => ?_
  cases members with
  | nil => rfl
  | cons m ms =>
    obtain ⟨key, v⟩ := m
    obtain ⟨s, rfl⟩ : ∃ s, key = some s := hkeys _ List.mem_cons_self
    have hchars : chars (object ((some s, v) :: ms)) =
        '\x7b' :: (quote s ++ ':' :: (chars v ++ memberChars ms)) := rfl
    rw [hchars, List.length_cons] at hfuel
    have hmembers : members? fuel (quote s ++ ':' :: (chars v ++ (memberChars ms ++ rest))) =
        some ((some s, v) :: ms, rest) :=
      members?_readsBack (fun x hx => hkeys x (List.mem_cons_of_mem _ hx))
        (h _ List.mem_cons_self) (fun x hx => h x (List.mem_cons_of_mem _ hx)) (by omega)
    rw [hchars, List.cons_append, List.append_assoc, List.cons_append, List.append_assoc,
      value?_openObject, hmembers]
    rfl

theorem Value.Plain.readsBack (h : v.Plain) : ReadsBack v := by
  induction h with
  | null => exact Plain.null.readsBack_of_succ fun _ _ _ => rfl
  | bool b => cases b <;> exact (Plain.bool _).readsBack_of_succ fun _ _ _ => rfl
  | text s => exact (Plain.text s).readsBack_of_succ fun _ _ _ => value?_quote rfl
  | array hplain ih => exact readsBack_array hplain ih
  | object hkeys hplain ih => exact readsBack_object hkeys hplain ih

theorem Value.parse?_of_value {text : String} {cs : List Char} (htext : text.toList = cs)
    (h : value? (2 * cs.length + 2) cs = some (v, [])) : parse? text = some v := by
  subst htext
  unfold parse?
  dsimp only
  rw [h]
  rfl

theorem Value.parse?_compact (h : v.Plain) : Value.parse? v.compact = some v := by
  have hchars : v.compact.toList = chars v := String.toList_ofList
  refine Value.parse?_of_value hchars ?_
  have hread := h.readsBack (2 * (chars v).length + 2) [] (by omega)
  rwa [List.append_nil] at hread

end Warrant.Json
