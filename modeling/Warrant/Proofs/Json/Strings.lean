import Warrant.Json.Reader
import Warrant.Json.Writer

/-!
# How strings are spelled

A character in a string stands for itself or is spelled with a backslash: by a letter, by its
number, or by two numbers that are a surrogate pair (`SpellsChar`). The reader accepts the spellings
and nothing else (`string?_eq_iff`), and what `encode` writes is one of them (`spells_encode`), so a
written string is read as it was. No character is excluded.
-/

namespace Warrant.Json

/-! ### Spellings -/

/-- The input begins with a spelling of the character, and the rest follows. -/
inductive SpellsChar : List Char → Char → List Char → Prop where
  | plain {c : Char} {rest : List Char} (hquote : c ≠ '"') (hslash : c ≠ '\\')
      (hcontrol : 0x20 ≤ c.toNat) : SpellsChar (c :: rest) c rest
  | letter {l c : Char} {rest : List Char} (h : escaped? l = some c) :
      SpellsChar ('\\' :: l :: rest) c rest
  | number {x₁ x₂ x₃ x₄ c : Char} {rest : List Char}
      (h : Text.hexNumber? [x₁, x₂, x₃, x₄] = some c.toNat) :
      SpellsChar ('\\' :: 'u' :: x₁ :: x₂ :: x₃ :: x₄ :: rest) c rest
  | pair {x₁ x₂ x₃ x₄ y₁ y₂ y₃ y₄ c : Char} {high low : Nat} {rest : List Char}
      (hx : Text.hexNumber? [x₁, x₂, x₃, x₄] = some high) (hhigh : isHighSurrogate high)
      (hy : Text.hexNumber? [y₁, y₂, y₃, y₄] = some low) (hlow : isLowSurrogate low)
      (hc : c.toNat = 0x10000 + (high - 0xD800) * 0x400 + (low - 0xDC00)) :
      SpellsChar ('\\' :: 'u' :: x₁ :: x₂ :: x₃ :: x₄ ::
        '\\' :: 'u' :: y₁ :: y₂ :: y₃ :: y₄ :: rest) c rest

/-- After an opening quotation mark the input spells the characters up to the closing one, and the
rest follows. -/
inductive Spells : List Char → List Char → List Char → Prop where
  | close {rest : List Char} : Spells ('"' :: rest) [] rest
  | char {cs cs' t rest : List Char} {c : Char} (h : SpellsChar cs c cs') (ht : Spells cs' t rest) :
      Spells cs (c :: t) rest

variable {c : Char} {cs cs' t rest : List Char} {n high low : Nat} {ps : List Part}

theorem SpellsChar.length_lt (h : SpellsChar cs c rest) : rest.length < cs.length := by
  cases h <;> simp only [List.length_cons] <;> omega

theorem Spells.length_lt (h : Spells cs t rest) : rest.length < cs.length := by
  induction h with
  | close => exact Nat.lt_succ_self _
  | char h _ ih => exact Nat.lt_trans ih h.length_lt

/-! ### Code units -/

theorem hexValue?_lt (h : Text.hexValue? c = some n) : n < 16 := by
  unfold Text.hexValue? at h
  simp only [Char.le_def, UInt32.le_iff_toNat_le] at h
  have hdigits : '0'.val.toNat = 48 ∧ '9'.val.toNat = 57 ∧ 'a'.val.toNat = 97 ∧
      'f'.val.toNat = 102 ∧ 'A'.val.toNat = 65 ∧ 'F'.val.toNat = 70 := by decide
  have hval : c.val.toNat = c.toNat ∧ '0'.val.toNat = '0'.toNat ∧ 'a'.val.toNat = 'a'.toNat ∧
      'A'.val.toNat = 'A'.toNat := ⟨rfl, rfl, rfl, rfl⟩
  split at h
  · cases h
    omega
  split at h
  · cases h
    omega
  split at h
  · cases h
    omega
  · cases h

theorem hexNumber?_lt {x₁ x₂ x₃ x₄ : Char} (h : Text.hexNumber? [x₁, x₂, x₃, x₄] = some n) :
    n < 0x10000 := by
  unfold Text.hexNumber? at h
  simp only [List.foldlM_cons, List.foldlM_nil, Option.bind_eq_bind, Option.bind_eq_some_iff,
    Option.map_eq_some_iff, Option.pure_def, Option.some.injEq] at h
  obtain ⟨_, ⟨a, ha, rfl⟩, _, ⟨b, hb, rfl⟩, _, ⟨d, hd, rfl⟩, _, ⟨e, he, rfl⟩, rfl⟩ := h
  have h₁ := hexValue?_lt ha
  have h₂ := hexValue?_lt hb
  have h₃ := hexValue?_lt hd
  have h₄ := hexValue?_lt he
  omega

theorem isHighSurrogate_iff : isHighSurrogate n = true ↔ 0xD800 ≤ n ∧ n < 0xDC00 := by
  simp [isHighSurrogate]

theorem isLowSurrogate_iff : isLowSurrogate n = true ↔ 0xDC00 ≤ n ∧ n < 0xE000 := by
  simp [isLowSurrogate]

theorem not_surrogate (c : Char) : ¬ isHighSurrogate c.toNat ∧ ¬ isLowSurrogate c.toNat := by
  rw [isHighSurrogate_iff, isLowSurrogate_iff]
  have hvalid : c.toNat < 0xD800 ∨ 0xDFFF < c.toNat ∧ c.toNat < 0x110000 := c.valid
  omega

theorem toNat_ofNat_of_lt (h : n < 0xD800 ∨ 0xDFFF < n ∧ n < 0x110000) :
    (Char.ofNat n).toNat = n := by
  rw [Char.ofNat, dif_pos h]
  rfl

theorem toNat_ofNat_unit (h : n < 0x10000) (hhigh : ¬ isHighSurrogate n)
    (hlow : ¬ isLowSurrogate n) : (Char.ofNat n).toNat = n := by
  rw [isHighSurrogate_iff] at hhigh
  rw [isLowSurrogate_iff] at hlow
  exact toNat_ofNat_of_lt (by omega)

theorem toNat_ofNat_pair (hhigh : isHighSurrogate high) (hlow : isLowSurrogate low) :
    let n := 0x10000 + (high - 0xD800) * 0x400 + (low - 0xDC00)
    (Char.ofNat n).toNat = n := by
  rw [isHighSurrogate_iff] at hhigh
  rw [isLowSurrogate_iff] at hlow
  exact toNat_ofNat_of_lt (by omega)

theorem decode_unit (hhigh : ¬ isHighSurrogate n) (hlow : ¬ isLowSurrogate n) (ps : List Part) :
    decode (.unit n :: ps) = (decode ps).map (Char.ofNat n :: ·) := by
  rw [Bool.not_eq_true] at hhigh hlow
  cases ps with
  | nil => simp [decode, hhigh, hlow]
  | cons p ps => cases p <;> simp [decode, hhigh, hlow]

theorem decode_pair (hhigh : isHighSurrogate high) (hlow : isLowSurrogate low) (ps : List Part) :
    decode (.unit high :: .unit low :: ps) = (decode ps).map
      (Char.ofNat (0x10000 + (high - 0xD800) * 0x400 + (low - 0xDC00)) :: ·) := by
  rw [decode, if_pos hhigh, if_pos hlow]

/-! ### Reading what is spelled -/

theorem scan_plain (hquote : c ≠ '"') (hslash : c ≠ '\\') (hcontrol : 0x20 ≤ c.toNat)
    (rest : List Char) : scan (c :: rest) = (scan rest).map fun r => (.char c :: r.1, r.2) := by
  rw [scan, if_neg (by simp [hslash, hcontrol])]
  · cases scan rest <;> rfl
  · exact hquote
  · exact fun _ _ _ _ _ h => absurd h hslash
  · exact fun _ _ h => absurd h hslash

theorem scan_letter {l : Char} (h : escaped? l = some c) (rest : List Char) :
    scan ('\\' :: l :: rest) = (scan rest).map fun r => (.char c :: r.1, r.2) := by
  rw [scan, h]
  · cases scan rest <;> rfl
  · -- An escape by number has another letter.
    rintro _ _ _ _ _ rfl
    cases h

theorem scan_number {x₁ x₂ x₃ x₄ : Char} (h : Text.hexNumber? [x₁, x₂, x₃, x₄] = some n)
    (rest : List Char) : scan ('\\' :: 'u' :: x₁ :: x₂ :: x₃ :: x₄ :: rest) =
      (scan rest).map fun r => (.unit n :: r.1, r.2) := by
  rw [scan, h]
  cases scan rest <;> rfl

theorem Spells.scan (h : Spells cs t rest) :
    ∃ ps, Json.scan cs = some (ps, rest) ∧ decode ps = some t := by
  induction h with
  | close => exact ⟨[], rfl, rfl⟩
  | @char cs cs' t rest c hc _ ih =>
    obtain ⟨ps, hscan, hdecode⟩ := ih
    cases hc with
    | plain hquote hslash hcontrol =>
      refine ⟨.char c :: ps, ?_, ?_⟩
      · rw [scan_plain hquote hslash hcontrol, hscan]
        rfl
      · rw [decode, hdecode]
        rfl
    | letter hl =>
      refine ⟨.char c :: ps, ?_, ?_⟩
      · rw [scan_letter hl, hscan]
        rfl
      · rw [decode, hdecode]
        rfl
    | number hn =>
      refine ⟨.unit c.toNat :: ps, ?_, ?_⟩
      · rw [scan_number hn, hscan]
        rfl
      · rw [decode_unit (not_surrogate c).1 (not_surrogate c).2, hdecode, Char.ofNat_toNat]
        rfl
    | @pair _ _ _ _ _ _ _ _ _ high low _ hx hhigh hy hlow heq =>
      refine ⟨.unit high :: .unit low :: ps, ?_, ?_⟩
      · rw [scan_number hx, scan_number hy, hscan]
        rfl
      · rw [decode_pair hhigh hlow, ← heq, hdecode, Char.ofNat_toNat]
        rfl

/-! ### Spelling what is read -/

/-- The input begins with a piece that is read as the part. -/
inductive ScansPart : List Char → Part → List Char → Prop where
  | char {cs rest : List Char} {c : Char} (h : SpellsChar cs c rest) : ScansPart cs (.char c) rest
  | unit {x₁ x₂ x₃ x₄ : Char} {n : Nat} {rest : List Char}
      (h : Text.hexNumber? [x₁, x₂, x₃, x₄] = some n) :
      ScansPart ('\\' :: 'u' :: x₁ :: x₂ :: x₃ :: x₄ :: rest) (.unit n) rest

theorem scan_cases (h : scan cs = some (ps, rest)) :
    ps = [] ∧ cs = '"' :: rest ∨
      ∃ p qs cs', ps = p :: qs ∧ ScansPart cs p cs' ∧ scan cs' = some (qs, rest) := by
  unfold scan at h
  split at h
  · cases h
  · cases h
    exact .inl ⟨rfl, rfl⟩
  · rename_i x₁ x₂ x₃ x₄ cs'
    obtain ⟨n, hn, h⟩ := Option.bind_eq_some_iff.1 h
    obtain ⟨⟨qs, after⟩, hscan, h⟩ := Option.bind_eq_some_iff.1 h
    cases h
    exact .inr ⟨.unit n, qs, cs', rfl, .unit hn, hscan⟩
  · rename_i l cs' _
    obtain ⟨c, hl, h⟩ := Option.bind_eq_some_iff.1 h
    obtain ⟨⟨qs, after⟩, hscan, h⟩ := Option.bind_eq_some_iff.1 h
    cases h
    exact .inr ⟨.char c, qs, cs', rfl, .char (.letter hl), hscan⟩
  · rename_i c cs' hquote _ _
    split at h
    · cases h
    rename_i hplain
    obtain ⟨hcontrol, hslash⟩ := not_or.1 hplain
    obtain ⟨⟨qs, after⟩, hscan, h⟩ := Option.bind_eq_some_iff.1 h
    cases h
    exact .inr ⟨.char c, qs, cs', rfl, .char (.plain hquote hslash (Nat.le_of_not_lt hcontrol)),
      hscan⟩

theorem cons_of_scan {p : Part} (h : scan cs = some (p :: ps, rest)) :
    ∃ cs', ScansPart cs p cs' ∧ scan cs' = some (ps, rest) := by
  obtain ⟨hnil, -⟩ | ⟨p', qs, cs', hps, hpart, hscan⟩ := scan_cases h
  · cases hnil
  · cases hps
    exact ⟨cs', hpart, hscan⟩

theorem spells_of_unit (h : scan cs = some (.unit n :: ps, rest)) (hhigh : ¬ isHighSurrogate n)
    (hlow : ¬ isLowSurrogate n) (ht : decode (.unit n :: ps) = some t)
    (ih : ∀ {cs t : List Char}, scan cs = some (ps, rest) → decode ps = some t →
      Spells cs t rest) : Spells cs t rest := by
  obtain ⟨cs', hpart, hscan⟩ := cons_of_scan h
  rw [decode_unit hhigh hlow] at ht
  obtain ⟨t', ht', rfl⟩ := Option.map_eq_some_iff.1 ht
  cases hpart with
  | unit hx =>
    have hn := toNat_ofNat_unit (hexNumber?_lt hx) hhigh hlow
    exact .char (.number (hx.trans (congrArg some hn.symm))) (ih hscan ht')

theorem spells_of_scan (h : scan cs = some (ps, rest)) (ht : decode ps = some t) :
    Spells cs t rest := by
  -- The reader joins two units at once where they are a pair.
  induction ps using decode.induct generalizing cs t with
  | case1 =>
    cases ht
    obtain ⟨-, rfl⟩ | ⟨_, _, _, hps, -⟩ := scan_cases h
    · exact .close
    · cases hps
  | case2 c ps ih =>
    obtain ⟨cs', hpart, hscan⟩ := cons_of_scan h
    rw [decode] at ht
    obtain ⟨t', ht', rfl⟩ := Option.map_eq_some_iff.1 ht
    cases hpart with
    | char hc => exact .char hc (ih hscan ht')
  | case3 high low ps hhigh hlow ih =>
    obtain ⟨cs', hpart, hscan⟩ := cons_of_scan h
    obtain ⟨cs'', hpart', hscan'⟩ := cons_of_scan hscan
    rw [decode_pair hhigh hlow] at ht
    obtain ⟨t', ht', rfl⟩ := Option.map_eq_some_iff.1 ht
    cases hpart with
    | unit hx =>
      cases hpart' with
      | unit hy =>
        exact .char (.pair hx hhigh hy hlow (toNat_ofNat_pair hhigh hlow)) (ih hscan' ht')
  | case4 high low ps hhigh hlow =>
    rw [decode, if_pos hhigh, if_neg hlow] at ht
    cases ht
  | case5 high low ps hhigh hlow =>
    rw [decode, if_neg hhigh, if_pos hlow] at ht
    cases ht
  | case6 n low ps hhigh hlow ih => exact spells_of_unit h hhigh hlow ht ih
  | case7 n ps hnot hhalf =>
    rw [decode, if_pos hhalf] at ht
    · cases ht
    · exact hnot
  | case8 n ps hnot hhalf ih =>
    rw [Bool.or_eq_true, not_or] at hhalf
    exact spells_of_unit h hhalf.1 hhalf.2 ht ih

/-- What is read as a string is what the input spells. -/
theorem string?_eq_iff {s : String} :
    string? cs = some (some s, rest) ↔ Spells cs s.toList rest := by
  constructor
  · intro h
    obtain ⟨⟨ps, after⟩, hscan, h⟩ := Option.bind_eq_some_iff.1 h
    obtain ⟨hcontent, rfl⟩ := Prod.mk.inj (Option.some.inj h)
    obtain ⟨t, ht, rfl⟩ := Option.map_eq_some_iff.1 hcontent
    rw [String.toList_ofList]
    exact spells_of_scan hscan ht
  · intro h
    obtain ⟨ps, hscan, hdecode⟩ := h.scan
    rw [string?, hscan]
    show some ((decode ps).map String.ofList, rest) = _
    rw [hdecode, Option.map_some, String.ofList_toList]

/-! ### Writing -/

theorem hexNumber?_control : ∀ n < 0x20,
    Text.hexNumber? ['0', '0', Text.hexDigit (n / 16), Text.hexDigit (n % 16)] = some n := by
  decide

theorem spellsChar_encodeChar (c : Char) (rest : List Char) :
    SpellsChar (encodeChar c ++ rest) c rest := by
  unfold encodeChar
  split
  case h_8 hquote hslash _ _ _ _ _ =>
    split
    · rename_i hlow
      exact .number (hexNumber?_control _ hlow)
    · rename_i hlow
      exact .plain hquote hslash (Nat.le_of_not_lt hlow)
  all_goals exact .letter rfl

theorem spells_encode (t rest : List Char) : Spells (encode t ++ '"' :: rest) t rest := by
  induction t with
  | nil => exact .close
  | cons c t ih =>
    have hsplit : encode (c :: t) ++ '"' :: rest = encodeChar c ++ (encode t ++ '"' :: rest) := by
      rw [encode, List.flatMap_cons, List.append_assoc]
      rfl
    rw [hsplit]
    exact .char (spellsChar_encodeChar c _) ih

theorem quote_append (s : String) (rest : List Char) :
    quote s ++ rest = '"' :: (encode s.toList ++ '"' :: rest) := by
  rw [quote, List.cons_append, List.append_assoc]
  rfl

theorem string?_quote (s : String) (rest : List Char) :
    string? (encode s.toList ++ '"' :: rest) = some (some s, rest) :=
  string?_eq_iff.2 (spells_encode s.toList rest)

end Warrant.Json
