import Warrant.Catalog.Document
import Warrant.Proofs.Json.Texts

/-!
# The texts of a catalog

A text holds a set if it is an array of strings, in any order, with repetitions and however it is
spelled (`ofBytes?_eq_some_iff`). One of these texts is written (`spellsTexts_encode`), so it reads
back as the set (`ofBytes?_encode`), and a set has one written text (`encode_eq_iff`).
-/

namespace Warrant.Catalog.Document

open Json

/-! ### What is read -/

theorem mapM_entry?_eq_some_iff {items : List Value} {ss : List String} :
    items.mapM entry? = some ss ↔ items = ss.map .text := by
  induction items generalizing ss with
  | nil =>
    cases ss with
    | nil => exact iff_of_true rfl rfl
    | cons s ss => exact iff_of_false nofun nofun
  | cons v items ih =>
    rw [List.mapM_cons]
    constructor
    · intro h
      obtain ⟨s, hv, h⟩ := Option.bind_eq_some_iff.1 h
      obtain ⟨ss', hitems, h⟩ := Option.bind_eq_some_iff.1 h
      cases h
      rw [ih.1 hitems]
      unfold entry? at hv
      split at hv
      · rw [hv]
        rfl
      · cases hv
    · intro h
      cases ss with
      | nil => cases h
      | cons s ss =>
        obtain ⟨rfl, hitems⟩ := List.cons.inj h
        rw [ih.2 hitems]
        rfl

theorem decode?_eq_some_iff {text : String} {s : TextSet} :
    decode? text = some s ↔ ∃ ss, SpellsTexts text.toList ss ∧ s = TextSet.ofList ss := by
  constructor
  · intro h
    obtain ⟨v, hparse, h⟩ := Option.bind_eq_some_iff.1 h
    split at h
    · obtain ⟨ss, hitems, h⟩ := Option.bind_eq_some_iff.1 h
      cases h
      rw [mapM_entry?_eq_some_iff.1 hitems] at hparse
      exact ⟨ss, Value.parse?_eq_texts_iff.1 hparse, rfl⟩
    · cases h
  · rintro ⟨ss, hspells, rfl⟩
    rw [decode?, Value.parse?_eq_texts_iff.2 hspells]
    show ((ss.map Value.text).mapM entry? >>= fun es => some (TextSet.ofList es)) = _
    rw [mapM_entry?_eq_some_iff.2 rfl]
    rfl

theorem fromUTF8?_eq_some_iff {content : ByteArray} {text : String} :
    String.fromUTF8? content = some text ↔ content = text.toUTF8 := by
  unfold String.fromUTF8?
  constructor
  · intro h
    split at h
    · cases h
      rfl
    · cases h
  · rintro rfl
    exact dif_pos text.isValidUTF8

theorem ofBytes?_eq_some_iff {content : ByteArray} {s : TextSet} :
    ofBytes? content = some s ↔ ∃ text ss, content = String.toUTF8 text ∧
      SpellsTexts text.toList ss ∧ s = TextSet.ofList ss := by
  rw [ofBytes?, Option.bind_eq_bind, Option.bind_eq_some_iff]
  simp only [fromUTF8?_eq_some_iff, decode?_eq_some_iff, exists_and_left]

/-! ### What is written -/

theorem furtherLines_cons (e : String) (es : List String) (rest : List Char) :
    furtherLines (e :: es) ++ rest =
      ',' :: '\n' :: ' ' :: ' ' :: (quote e ++ (furtherLines es ++ rest)) := by
  simp [furtherLines]

theorem spellsItems_lines (e : String) (es : List String) (cs : List Char)
    (h : Blanks cs (quote e ++ (furtherLines es ++ ['\n', ']']))) :
    SpellsItems cs (e :: es) [] := by
  induction es generalizing e cs with
  | nil =>
    rw [quote_append] at h
    exact .last h (spells_encode e.toList _) (.pass rfl .done)
  | cons e' es ih =>
    rw [quote_append, furtherLines_cons] at h
    refine .next h (spells_encode e.toList _) .done (ih e' _ ?_)
    exact .pass rfl (.pass rfl (.pass rfl .done))

theorem spellsTexts_encode (s : TextSet) : SpellsTexts (encode s).toList s.toList := by
  have hchars : (encode s).toList = _ := String.toList_ofList
  rw [hchars]
  cases s.toList with
  | nil => exact .empty .done .done .done
  | cons e es =>
    have htext : ['[', '\n', ' ', ' '] ++ quote e ++ furtherLines es ++ ['\n', ']'] =
        '[' :: '\n' :: ' ' :: ' ' :: (quote e ++ (furtherLines es ++ ['\n', ']'])) := by
      simp only [List.append_assoc, List.cons_append, List.nil_append]
    dsimp only
    rw [htext]
    refine .items .done (spellsItems_lines e es _ ?_) .done
    exact .pass rfl (.pass rfl (.pass rfl .done))

/-- The text of a set holds it, whatever characters its elements have. -/
theorem ofBytes?_encode (s : TextSet) : ofBytes? (encode s).toUTF8 = some s :=
  ofBytes?_eq_some_iff.2 ⟨_, _, rfl, spellsTexts_encode s, s.ofList_toList.symm⟩

theorem encode_eq_iff {s t : TextSet} : (encode s).toUTF8 = (encode t).toUTF8 ↔ s = t := by
  refine ⟨fun h => ?_, fun h => h ▸ rfl⟩
  have hread := ofBytes?_encode s
  rw [h, ofBytes?_encode t] at hread
  exact (Option.some.inj hread).symm

end Warrant.Catalog.Document
