import Warrant.Proofs.GrantStore.Change

/-!
# Grants in two maps

A grant store may be kept in two maps in which a key can be missing, or stand for an empty set
(`GrantTable`). A table shows a store (`GrantTable.shown`): every call answers on the one as on the
other and leaves a table that shows the changed store (`answer_shown`, `next_shown`). So tables that
show one store cannot be told apart, whatever keys they miss (`answers_shown`).
-/

namespace Warrant

/-! ### Calls one after another -/

namespace GrantStore

inductive Use where
  | change (ch : Change)
  | direct (p : Principal)
  | grants (p : Principal)
  | rolesOf (user : String)

inductive Reply where
  | done
  | flag (value : Bool)
  | set (entries : TextSet)
deriving DecidableEq

def answer (g : GrantStore) : Use → Reply
  | .change (.assign p c) => .flag (g.assign p c).1
  | .change (.revoke p grant) => .flag (g.revoke p grant).1
  | .change (.replace _ _) => .done
  | .change (.addRole user role) => .flag (g.addRole user role).1
  | .change (.removeRole user role) => .flag (g.removeRole user role).1
  | .direct p => .set (g.direct p)
  | .grants p => .set (g.grants p)
  | .rolesOf user => .set (g.rolesOf user)

def next (g : GrantStore) : Use → GrantStore
  | .change ch => g.after ch
  | .direct _ | .grants _ | .rolesOf _ => g

def replies {σ : Type} (answer : σ → Use → Reply) (next : σ → Use → σ) (s : σ) :
    List Use → List Reply
  | [] => []
  | u :: us => answer s u :: replies answer next (next s u) us

def answers (g : GrantStore) (uses : List Use) : List Reply := replies answer next g uses

end GrantStore

/-! ### Maps to sets -/

/-- A map to sets, in which a key may be missing. -/
abbrev SetMap (α : Type) : Type := α → Option TextSet

namespace SetMap

variable {α : Type} [DecidableEq α] (m : SetMap α) (a : α) (s : TextSet) (x : String)

/-- The set at a key; without the key, the empty one. -/
def held (m : SetMap α) (a : α) : TextSet := (m a).getD ∅

/-- Puts a text into the set at a key, which is made if it is missing; answers whether the text is
new. -/
def putIn : Bool × SetMap α :=
  let present := (m a).getD ∅
  (x ∉ present, update m a (some (present.insert x)))

/-- Takes a text out of the set at a key; answers whether it was there. A missing key is not
made. -/
def takeOut : Bool × SetMap α :=
  match m a with
  | none => (false, m)
  | some present => (x ∈ present, update m a (some (present.erase x)))

theorem held_update : held (update m a (some s)) = update (held m) a s := by
  funext b
  by_cases hb : b = a
  · subst hb
    simp [held]
  · simp [held, hb]

theorem held_putIn : held (m.putIn a x).2 = update (held m) a ((held m a).insert x) :=
  held_update m a _

theorem takeOut_answer : (m.takeOut a x).1 = decide (x ∈ held m a) := by
  unfold takeOut held
  cases m a with
  | none => exact (decide_eq_false (TextSet.not_mem_empty x)).symm
  | some present => rfl

theorem held_takeOut : held (m.takeOut a x).2 = update (held m) a ((held m a).erase x) := by
  cases hm : m a with
  | none =>
    have hempty : (held m a).erase x = held m a := by
      ext y
      simp [held, hm]
    have hkept : (m.takeOut a x).2 = m := by
      unfold takeOut
      rw [hm]
    rw [hkept, hempty]
    funext b
    by_cases hb : b = a
    · subst hb
      simp
    · simp [hb]
  | some present =>
    have htaken : (m.takeOut a x).2 = update m a (some (present.erase x)) := by
      unfold takeOut
      rw [hm]
    have hpresent : held m a = present := by
      unfold held
      rw [hm]
      rfl
    rw [htaken, held_update, hpresent]

end SetMap

/-! ### Tables -/

/-- Direct grants by principal and roles by user, each in a map. -/
structure GrantTable where
  direct : SetMap Principal
  memberships : SetMap String

namespace GrantTable

open GrantStore (Change Use Reply)

def empty : GrantTable := ⟨fun _ => none, fun _ => none⟩

/-- The table of a configuration. Every declared user gets a set of roles, be it empty. -/
def ofConfig (config : Config) : GrantTable :=
  let withRoles := config.roles.foldl
    (fun t r => { t with direct := update t.direct (.role r.id) (some (.ofList r.grants)) }) empty
  config.users.foldl
    (fun t u =>
      { direct := update t.direct (.user u.id) (some (.ofList u.grants))
        memberships := update t.memberships u.id (some (.ofList u.roles)) })
    withRoles

/-- All grants of a principal; roles that are missing are passed over. -/
def grants (t : GrantTable) : Principal → TextSet
  | .role id => t.direct.held (.role id)
  | .user id =>
    Access.merge (t.direct.held (.user id))
      ((t.memberships.held id).toList.filterMap fun r => t.direct (.role r))

def answer (t : GrantTable) : Use → Reply
  | .change (.assign p c) => .flag (t.direct.putIn p c.render).1
  | .change (.revoke p grant) => .flag (t.direct.takeOut p grant).1
  | .change (.replace _ _) => .done
  | .change (.addRole user role) => .flag (t.memberships.putIn user role).1
  | .change (.removeRole user role) => .flag (t.memberships.takeOut user role).1
  | .direct p => .set (t.direct.held p)
  | .grants p => .set (t.grants p)
  | .rolesOf user => .set (t.memberships.held user)

def after (t : GrantTable) : Change → GrantTable
  | .assign p c => { t with direct := (t.direct.putIn p c.render).2 }
  | .revoke p grant => { t with direct := (t.direct.takeOut p grant).2 }
  | .replace p cs => { t with direct := update t.direct p (some (.ofList (cs.map (·.render)))) }
  | .addRole user role => { t with memberships := (t.memberships.putIn user role).2 }
  | .removeRole user role => { t with memberships := (t.memberships.takeOut user role).2 }

def next (t : GrantTable) : Use → GrantTable
  | .change ch => t.after ch
  | .direct _ | .grants _ | .rolesOf _ => t

def answers (t : GrantTable) (uses : List Use) : List Reply :=
  GrantStore.replies answer next t uses

def shown (t : GrantTable) : GrantStore := ⟨t.direct.held, t.memberships.held⟩

variable (t : GrantTable)

/-! ### A table answers as the store that it shows -/

theorem after_shown (ch : Change) : (t.after ch).shown = t.shown.after ch := by
  cases ch with
  | assign p c => exact congrArg (GrantStore.mk · _) (SetMap.held_putIn _ _ _)
  | revoke p grant => exact congrArg (GrantStore.mk · _) (SetMap.held_takeOut _ _ _)
  | replace p cs => exact congrArg (GrantStore.mk · _) (SetMap.held_update _ _ _)
  | addRole user role => exact congrArg (GrantStore.mk _) (SetMap.held_putIn _ _ _)
  | removeRole user role => exact congrArg (GrantStore.mk _) (SetMap.held_takeOut _ _ _)

theorem next_shown (u : Use) : (t.next u).shown = t.shown.next u := by
  cases u with
  | change ch => exact t.after_shown ch
  | _ => rfl

theorem grants_shown (p : Principal) : t.grants p = t.shown.grants p := by
  cases p with
  | role id => rfl
  | user id =>
    ext x
    show x ∈ Access.merge _ _ ↔ x ∈ t.shown.grantsThrough id (t.memberships.held id)
    rw [GrantStore.mem_grantsThrough, Access.mem_merge]
    refine or_congr_right ⟨?_, ?_⟩
    · rintro ⟨s, hs, hx⟩
      obtain ⟨r, hr, hpresent⟩ := List.mem_filterMap.1 hs
      refine ⟨r, hr, ?_⟩
      show x ∈ (t.direct (.role r)).getD ∅
      rw [hpresent]
      exact hx
    · rintro ⟨r, hr, hx⟩
      change x ∈ (t.direct (.role r)).getD ∅ at hx
      cases hpresent : t.direct (.role r) with
      | none =>
        rw [hpresent] at hx
        exact absurd hx (TextSet.not_mem_empty x)
      | some s =>
        rw [hpresent] at hx
        exact ⟨s, List.mem_filterMap.2 ⟨r, hr, hpresent⟩, hx⟩

theorem answer_shown (u : Use) : t.answer u = t.shown.answer u := by
  cases u with
  | change ch =>
    cases ch with
    | assign p c => rfl
    | revoke p grant => exact congrArg Reply.flag (SetMap.takeOut_answer _ _ _)
    | replace p cs => rfl
    | addRole user role => rfl
    | removeRole user role => exact congrArg Reply.flag (SetMap.takeOut_answer _ _ _)
  | direct p => rfl
  | grants p => exact congrArg Reply.set (t.grants_shown p)
  | rolesOf user => rfl

/-- Nothing but the store that it shows is ever seen of a table. -/
theorem answers_shown (uses : List Use) : t.answers uses = t.shown.answers uses := by
  unfold answers GrantStore.answers
  induction uses generalizing t with
  | nil => rfl
  | cons u us ih =>
    rw [GrantStore.replies, GrantStore.replies, answer_shown, ih, next_shown]

theorem foldl_after_shown (changes : List Change) :
    (changes.foldl after t).shown = changes.foldl GrantStore.after t.shown :=
  (List.foldl_hom shown fun t ch => (t.after_shown ch).symm).symm

theorem ofConfig_shown (config : Config) : (ofConfig config).shown = .ofConfig config := by
  refine ((congrArg (config.users.foldl _) (List.foldl_hom shown fun t r => ?_)).trans
    (List.foldl_hom shown fun t u => ?_)).symm
  · exact congrArg (GrantStore.mk · _) (SetMap.held_update _ _ _).symm
  · show _ = GrantStore.mk (SetMap.held _) (SetMap.held _)
    rw [SetMap.held_update, SetMap.held_update]
    rfl

end GrantTable

end Warrant
