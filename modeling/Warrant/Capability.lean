/-!
# Capabilities

A capability is written `entity:action` or `entity:action:*`. Either name may be the wildcard `*`;
the third part is the scope, which must be the wildcard and widens the grant from the holder's own
resources to all of them. `Capability.parse` reads this grammar and `Capability.render` writes it.
-/

namespace Warrant

/-- Stands for every name. -/
def wildcard : String := "*"

/-- Why a text is no capability, or a pair of names forms none. -/
inductive GrammarError where
  | segmentCount (capability : String) (found : Nat)
  | emptySegment (capability : String)
  | separatorInSegment (segment : String)
  | invalidScope (capability scope : String)
deriving DecidableEq, Repr

namespace GrammarError

def message : GrammarError → String
  | segmentCount capability found =>
    "capability '" ++ capability ++ "' has " ++ toString found ++ " segments, expected 2 or 3"
  | emptySegment capability => "capability '" ++ capability ++ "' has an empty segment"
  | separatorInSegment segment => "segment '" ++ segment ++ "' contains the ':' separator"
  | invalidScope capability scope =>
    "capability '" ++ capability ++ "' has scope '" ++ scope ++ "', only '*' is allowed"

end GrammarError

/-- A name that can stand as one part of a capability. -/
def IsSegment (name : String) : Prop := name ≠ "" ∧ ':' ∉ name.toList

instance (name : String) : Decidable (IsSegment name) :=
  inferInstanceAs (Decidable (_ ∧ _))

/-- A well-formed capability; `broad` says that the scope is present. -/
structure Capability where
  entity : String
  action : String
  broad : Bool
  entity_segment : IsSegment entity
  action_segment : IsSegment action
deriving DecidableEq

namespace Capability

instance : Repr Capability := ⟨fun c n => reprPrec (c.entity, c.action, c.broad) n⟩

@[ext] theorem ext {c d : Capability} (he : c.entity = d.entity) (ha : c.action = d.action)
    (hb : c.broad = d.broad) : c = d := by
  cases c; cases d; cases he; cases ha; cases hb; rfl

def global : Capability := ⟨wildcard, wildcard, true, by decide, by decide⟩

/-- The capability of two names; an empty name is reported before a separator in either. -/
def make (entity action : String) (broad : Bool) : Except GrammarError Capability :=
  if he : IsSegment entity then
    if ha : IsSegment action then
      .ok ⟨entity, action, broad, he, ha⟩
    else if action = "" then
      .error (.emptySegment (entity ++ ":" ++ action))
    else
      .error (.separatorInSegment action)
  else if entity = "" ∨ action = "" then
    .error (.emptySegment (entity ++ ":" ++ action))
  else
    .error (.separatorInSegment entity)

def narrow (entity action : String) : Except GrammarError Capability := make entity action false

def wide (entity action : String) : Except GrammarError Capability := make entity action true

def render (c : Capability) : String :=
  c.entity ++ ":" ++ c.action ++ if c.broad then ":*" else ""

/-! ### Reading -/

theorem not_mem_of_mem_splitOn {α : Type} [BEq α] [LawfulBEq α] {sep : α} {xs part : List α}
    (h : part ∈ xs.splitOn sep) : sep ∉ part := by
  induction xs generalizing part with
  | nil => simp_all [List.splitOn_nil]
  | cons x xs ih =>
    rw [List.splitOn_eq_splitOnP, List.splitOnP_cons_eq_if_modifyHead,
      ← List.splitOn_eq_splitOnP] at h
    split at h
    · rcases List.mem_cons.1 h with rfl | h
      · exact List.not_mem_nil
      · exact ih h
    · rename_i hx
      cases hs : xs.splitOn sep with
      | nil => simp [hs] at h
      | cons p ps =>
        rw [hs, List.modifyHead_cons] at h
        rcases List.mem_cons.1 h with rfl | h
        · rintro hm
          rcases List.mem_cons.1 hm with rfl | hm
          · simp at hx
          · exact ih (hs ▸ List.mem_cons_self) hm
        · exact ih (hs ▸ List.mem_cons_of_mem _ h)

def segments (text : String) : List String := (text.toList.splitOn ':').map String.ofList

theorem separator_not_mem_of_mem_segments {text s : String} (h : s ∈ segments text) :
    ':' ∉ s.toList := by
  obtain ⟨cs, hcs, rfl⟩ := List.mem_map.1 h
  rw [String.toList_ofList]
  exact not_mem_of_mem_splitOn hcs

theorem isSegment_of_mem {text s : String} (hne : s ≠ "") (h : s ∈ segments text) : IsSegment s :=
  ⟨hne, separator_not_mem_of_mem_segments h⟩

/-- Reads a capability. The number of parts is judged first, then empty parts, then the scope. -/
def parse (text : String) : Except GrammarError Capability :=
  match h : segments text with
  | [entity, action] =>
    if hne : entity = "" ∨ action = "" then
      .error (.emptySegment text)
    else
      .ok ⟨entity, action, false,
        isSegment_of_mem (fun e => hne (.inl e)) (by simp [h] : entity ∈ segments text),
        isSegment_of_mem (fun e => hne (.inr e)) (by simp [h] : action ∈ segments text)⟩
  | [entity, action, scope] =>
    if hne : entity = "" ∨ action = "" ∨ scope = "" then
      .error (.emptySegment text)
    else if scope = wildcard then
      .ok ⟨entity, action, true,
        isSegment_of_mem (fun e => hne (.inl e)) (by simp [h] : entity ∈ segments text),
        isSegment_of_mem (fun e => hne (.inr (.inl e))) (by simp [h] : action ∈ segments text)⟩
    else
      .error (.invalidScope text scope)
  | found => .error (.segmentCount text found.length)

/-! ### Meaning -/

/-- Whether the capability applies to a request. -/
def covers (c : Capability) (entity action : String) : Bool :=
  (c.entity = wildcard || c.entity = entity) && (c.action = wildcard || c.action = action)

/-- Whether some registry makes the capability legal: with the entity `*` only the global one. -/
def isDerivable (c : Capability) : Bool :=
  c.entity ≠ wildcard || (c.action = wildcard && c.broad)

/-- Order by entity, action and scope, the narrow capability first. -/
def le (c d : Capability) : Bool :=
  c.entity < d.entity || (c.entity = d.entity &&
    (c.action < d.action || (c.action = d.action && (!c.broad || d.broad))))

end Capability

end Warrant
