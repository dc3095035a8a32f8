import Warrant.Config

/-!
# What is wrong with a configuration

`Breaks` says what is wrong with a configuration, and at which place. A place is the number of a
section with the positions on the way from there, and places are ordered as lists are. A validation
reports what is wrong at the first place (`validate_reports`): every check is put together from
checks of its parts in their order (`ReportsFrom`).
-/

namespace Warrant.Config

/-- Where something stands. Of two places the smaller list is the earlier place. -/
abbrev Place := List Nat

section Reports

variable {ε α : Type} {x y : Except ε Unit} {P Q : Place → ε → Prop} {e : ε} {k : Nat}
  {place : Place}

/-! ### Checks that report what is wrong first -/

/-- The check accepts where nothing is wrong, and reports what is wrong at the first place. -/
def ReportsFirst (x : Except ε Unit) (P : Place → ε → Prop) : Prop :=
  match x with
  | .ok _ => ∀ place e, ¬ P place e
  | .error e => ∃ place, P place e ∧ ∀ earlier < place, ∀ e', ¬ P earlier e'

theorem ReportsFirst.congr (h : ReportsFirst x P) (hiff : ∀ place e, P place e ↔ Q place e) :
    ReportsFirst x Q := by
  obtain rfl : P = Q := funext fun place => funext fun e => propext (hiff place e)
  exact h

theorem ReportsFirst.eq_ok_iff (h : ReportsFirst x P) : x = .ok () ↔ ∀ place e, ¬ P place e := by
  cases x with
  | ok u => exact iff_of_true rfl h
  | error e =>
    obtain ⟨place, hplace, -⟩ := h
    exact iff_of_false nofun fun hnone => hnone place e hplace

theorem ReportsFirst.eq_error_iff (h : ReportsFirst x P)
    (hunique : ∀ {place e e'}, P place e → P place e' → e = e') :
    x = .error e ↔ ∃ place, P place e ∧ ∀ earlier < place, ∀ e', ¬ P earlier e' := by
  cases x with
  | ok u => exact iff_of_false nofun fun ⟨place, hplace, _⟩ => h place e hplace
  | error e₀ =>
    obtain ⟨first, hfirst, hbefore⟩ := h
    constructor
    · intro he
      cases he
      exact ⟨first, hfirst, hbefore⟩
    · rintro ⟨place, hplace, hearlier⟩
      have hsame : first = place := List.le_antisymm
        (List.not_lt.1 fun hlt => hbefore _ hlt _ hplace)
        (List.not_lt.1 fun hlt => hearlier _ hlt _ hfirst)
      rw [hunique hfirst (hsame ▸ hplace)]

/-! ### Checks of several parts -/

def Here (R : ε → Prop) (place : Place) (e : ε) : Prop := place = [] ∧ R e

def At (k : Nat) (P : Place → ε → Prop) (place : Place) (e : ε) : Prop :=
  ∃ rest, place = k :: rest ∧ P rest e

def Among (xs : List α) (P : α → Place → ε → Prop) (place : Place) (e : ε) : Prop :=
  ∃ i a, xs[i]? = some a ∧ At i (P a) place e

theorem reportsFirst_here {R : ε → Prop} (h : ∀ e, x = .error e ↔ R e) :
    ReportsFirst x (Here R) := by
  cases x with
  | ok u => exact fun _ e hplace => nomatch (h e).2 hplace.2
  | error e => exact ⟨[], ⟨rfl, (h e).1 rfl⟩, fun earlier hlt => absurd hlt (List.not_lt_nil _)⟩

/-- A check whose parts have the numbers from `k` on. -/
structure ReportsFrom (k : Nat) (x : Except ε Unit) (P : Place → ε → Prop) : Prop where
  reports : ReportsFirst x P
  numbered : ∀ place e, P place e → ∃ i rest, place = i :: rest ∧ k ≤ i

theorem reportsFrom_nil : ReportsFrom k (.ok () : Except ε Unit) fun _ _ => False :=
  ⟨fun _ _ => id, fun _ _ => False.elim⟩

theorem ReportsFrom.congr (h : ReportsFrom k x P) (hiff : ∀ place e, P place e ↔ Q place e) :
    ReportsFrom k x Q :=
  ⟨h.reports.congr hiff, fun place e hplace => h.numbered place e ((hiff place e).2 hplace)⟩

/-- A part before the others. Where it is in order, they decide. -/
theorem ReportsFirst.cons (hx : ReportsFirst x P) (hy : ReportsFrom (k + 1) y Q) :
    ReportsFrom k (do x; y) fun place e => At k P place e ∨ Q place e := by
  refine ⟨?_, ?_⟩
  · cases x with
    | ok u =>
      refine hy.reports.congr fun place e => ⟨.inr, ?_⟩
      rintro (⟨rest, -, hrest⟩ | hplace)
      · exact absurd hrest (hx rest e)
      · exact hplace
    | error e =>
      obtain ⟨rest, hrest, hfirst⟩ := hx
      refine ⟨k :: rest, .inl ⟨rest, rfl, hrest⟩, ?_⟩
      rintro earlier hlt e' (⟨rest', rfl, hrest'⟩ | hearlier)
      · rcases List.cons_lt_cons_iff.1 hlt with hk | ⟨-, hlt⟩
        · exact absurd hk (Nat.lt_irrefl k)
        · exact hfirst rest' hlt e' hrest'
      · obtain ⟨i, rest', rfl, hi⟩ := hy.numbered earlier e' hearlier
        rcases List.cons_lt_cons_iff.1 hlt with hk | ⟨hk, -⟩
        · omega
        · omega
  · rintro place e (⟨rest, rfl, -⟩ | hplace)
    · exact ⟨k, rest, rfl, Nat.le_refl k⟩
    · obtain ⟨i, rest, rfl, hi⟩ := hy.numbered place e hplace
      exact ⟨i, rest, rfl, by omega⟩

theorem ReportsFirst.last (h : ReportsFirst x P) : ReportsFrom k x (At k P) := by
  have hlast : ReportsFrom k (do x; .ok ()) (At k P) :=
    (h.cons reportsFrom_nil).congr fun _ _ => or_iff_left id
  cases x with
  | ok u => exact hlast
  | error e => exact hlast

theorem each_reportsFrom {check : α → Except ε Unit} {P : α → Place → ε → Prop}
    (h : ∀ a, ReportsFirst (check a) (P a)) (xs : List α) :
    ReportsFrom k (each check xs) fun place e =>
      ∃ i a, xs[i]? = some a ∧ At (k + i) (P a) place e := by
  induction xs generalizing k with
  | nil => exact reportsFrom_nil.congr fun _ _ => ⟨False.elim, fun ⟨_, _, hi, _⟩ => nomatch hi⟩
  | cons a as ih =>
    refine ((h a).cons ih).congr fun place e => ⟨?_, ?_⟩
    · rintro (hplace | ⟨i, b, hb, hplace⟩)
      · exact ⟨0, a, rfl, hplace⟩
      · exact ⟨i + 1, b, hb, by rwa [Nat.add_right_comm] at hplace⟩
    · rintro ⟨i, b, hb, hplace⟩
      cases i with
      | zero =>
        cases hb
        exact .inl hplace
      | succ i => exact .inr ⟨i, b, hb, by rwa [Nat.add_right_comm]⟩

theorem each_reportsFirst {check : α → Except ε Unit} {P : α → Place → ε → Prop}
    (h : ∀ a, ReportsFirst (check a) (P a)) (xs : List α) :
    ReportsFirst (each check xs) (Among xs P) :=
  (each_reportsFrom (k := 0) h xs).reports.congr fun place e => by simp only [Nat.zero_add, Among]

end Reports

/-! ### What can be wrong -/

variable {c : Config} {p : Principal} {grant user role : String} {ids declared : List String}
  {error err : ConfigError} {place : Place}

inductive Refused (p : Principal) (grant : String) : ConfigError → Prop
  | malformed {reason : GrammarError} (h : Capability.parse grant = .error reason) :
    Refused p grant (.invalidGrant p reason)
  | unreachable {c : Capability} (h : Capability.parse grant = .ok c)
    (hc : c.isDerivable = false) : Refused p grant (.unreachableGrant p grant)

/-- The text at a position stands earlier in the list as well. -/
def Repeated (ids : List String) (i : Nat) (id : String) : Prop :=
  ids[i]? = some id ∧ id ∈ ids.take i

/-- What is wrong with a configuration, and where. The sections are the operations, the repeated
roles, the repeated users, the grants of the roles, and the users; of each user the grants come
before the roles. -/
inductive Breaks (c : Config) : Place → ConfigError → Prop
  | operation {i j : Nat} {e : EntityDecl} {a : ActionDecl} {reason : GrammarError}
    (he : c.entities[i]? = some e) (ha : e.actions[j]? = some a)
    (h : Capability.narrow e.name a.name = .error reason) :
    Breaks c [0, i, j] (.invalidOperation e.name a.name reason)
  | role {i : Nat} {id : String} (h : Repeated (c.roles.map (·.id)) i id) :
    Breaks c [1, i] (.duplicateRole id)
  | user {i : Nat} {id : String} (h : Repeated (c.users.map (·.id)) i id) :
    Breaks c [2, i] (.duplicateUser id)
  | roleGrant {i j : Nat} {r : RoleDecl} {grant : String} {error : ConfigError}
    (hr : c.roles[i]? = some r) (hg : r.grants[j]? = some grant)
    (h : Refused (.role r.id) grant error) : Breaks c [3, i, j] error
  | userGrant {i j : Nat} {u : UserDecl} {grant : String} {error : ConfigError}
    (hu : c.users[i]? = some u) (hg : u.grants[j]? = some grant)
    (h : Refused (.user u.id) grant error) : Breaks c [4, i, 0, j] error
  | membership {i j : Nat} {u : UserDecl} {role : String}
    (hu : c.users[i]? = some u) (hr : u.roles[j]? = some role) (h : ∀ r ∈ c.roles, r.id ≠ role) :
    Breaks c [4, i, 1, j] (.unknownRole u.id role)

theorem Refused.unique (h : Refused p grant error) (h' : Refused p grant err) : error = err := by
  cases h with
  | malformed h =>
    cases h' with
    | malformed h' => rw [Except.error.inj (h.symm.trans h')]
    | unreachable h' => cases h.symm.trans h'
  | unreachable h =>
    cases h' with
    | malformed h' => cases h.symm.trans h'
    | unreachable => rfl

theorem Breaks.unique (h : Breaks c place error) (h' : Breaks c place err) : error = err := by
  cases h with
  | operation he ha h =>
    cases h' with
    | operation he' ha' h' =>
      cases he.symm.trans he'
      cases ha.symm.trans ha'
      rw [Except.error.inj (h.symm.trans h')]
  | role h =>
    cases h' with
    | role h' => rw [Option.some.inj (h.1.symm.trans h'.1)]
  | user h =>
    cases h' with
    | user h' => rw [Option.some.inj (h.1.symm.trans h'.1)]
  | roleGrant hr hg h =>
    cases h' with
    | roleGrant hr' hg' h' =>
      cases hr.symm.trans hr'
      cases hg.symm.trans hg'
      exact h.unique h'
  | userGrant hu hg h =>
    cases h' with
    | userGrant hu' hg' h' =>
      cases hu.symm.trans hu'
      cases hg.symm.trans hg'
      exact h.unique h'
  | membership hu hr =>
    cases h' with
    | membership hu' hr' =>
      cases hu.symm.trans hu'
      rw [Option.some.inj (hr.symm.trans hr')]

/-! ### What each check reports -/

theorem checkGrant_eq_error_iff : checkGrant p grant = .error error ↔ Refused p grant error := by
  unfold checkGrant
  cases hparse : Capability.parse grant with
  | error reason =>
    refine ⟨fun h => ?_, fun h => ?_⟩
    · cases h
      exact .malformed hparse
    · cases h with
      | malformed h => rw [Except.error.inj (hparse.symm.trans h)]
      | unreachable h => cases hparse.symm.trans h
  | ok c =>
    dsimp only
    cases hderivable : c.isDerivable with
    | true =>
      refine iff_of_false nofun fun h => ?_
      cases h with
      | malformed h => cases hparse.symm.trans h
      | unreachable h hc =>
        cases hparse.symm.trans h
        rw [hderivable] at hc
        cases hc
    | false =>
      refine ⟨fun h => ?_, fun h => ?_⟩
      · cases h
        exact .unreachable hparse hderivable
      · cases h with
        | malformed h => cases hparse.symm.trans h
        | unreachable => rfl

theorem checkOperation_eq_error_iff {o : Operation} :
    checkOperation o = .error error ↔ ∃ reason,
      Capability.narrow o.entity o.action = .error reason ∧
        error = .invalidOperation o.entity o.action reason := by
  unfold checkOperation
  cases hnarrow : Capability.narrow o.entity o.action with
  | ok c => simp
  | error reason => simp [eq_comm]

theorem checkMembership_eq_error_iff :
    checkMembership declared user role = .error error ↔
      role ∉ declared ∧ error = .unknownRole user role := by
  unfold checkMembership
  by_cases h : role ∈ declared
  · simp [h]
  · simp [h, eq_comm]

def checkFresh (duplicate : String → ConfigError) (seen : List String) (id : String) :
    Except ConfigError Unit :=
  if id ∈ seen then .error (duplicate id) else .ok ()

theorem checkFresh_eq_error_iff {duplicate : String → ConfigError} {seen : List String}
    {id : String} : checkFresh duplicate seen id = .error error ↔
      id ∈ seen ∧ error = duplicate id := by
  unfold checkFresh
  by_cases h : id ∈ seen
  · simp [h, eq_comm]
  · simp [h]

/-- The check of a list where some texts were seen before it. -/
def checkDistinctFrom (duplicate : String → ConfigError) (seen ids : List String) :
    Except ConfigError Unit :=
  match firstRepeated? seen ids with
  | some id => .error (duplicate id)
  | none => .ok ()

theorem checkDistinctFrom_cons {duplicate : String → ConfigError} {seen : List String}
    {id : String} :
    checkDistinctFrom duplicate seen (id :: ids) = (do
      checkFresh duplicate seen id
      checkDistinctFrom duplicate (id :: seen) ids) := by
  unfold checkDistinctFrom checkFresh
  rw [firstRepeated?]
  by_cases hseen : id ∈ seen
  · simp only [if_pos hseen]
    rfl
  · simp only [if_neg hseen]
    rfl

theorem checkDistinctFrom_reports {k : Nat} (duplicate : String → ConfigError)
    (seen ids : List String) :
    ReportsFrom k (checkDistinctFrom duplicate seen ids) fun place err =>
      ∃ i id, ids[i]? = some id ∧ (id ∈ seen ∨ id ∈ ids.take i) ∧
        At (k + i) (Here (· = duplicate id)) place err := by
  induction ids generalizing seen k with
  | nil => exact reportsFrom_nil.congr fun _ _ => ⟨False.elim, fun ⟨_, _, hi, _⟩ => nomatch hi⟩
  | cons id rest ih =>
    have hfresh : ReportsFirst (checkFresh duplicate seen id)
        (Here fun err => id ∈ seen ∧ err = duplicate id) :=
      reportsFirst_here fun _ => checkFresh_eq_error_iff
    -- The first text of the list is among those that were seen before the rest.
    have hmoved : ∀ x i, x ∈ id :: seen ∨ x ∈ rest.take i ↔
        x ∈ seen ∨ x ∈ (id :: rest).take (i + 1) := fun x i => by
      rw [List.take_succ_cons, List.mem_cons, List.mem_cons, or_assoc, or_left_comm]
    rw [checkDistinctFrom_cons]
    refine (hfresh.cons (ih (id :: seen))).congr fun place err => ⟨?_, ?_⟩
    · rintro (⟨_, rfl, rfl, hseen, rfl⟩ | ⟨i, x, hx, hmem, hplace⟩)
      · exact ⟨0, id, rfl, .inl hseen, [], rfl, rfl, rfl⟩
      · exact ⟨i + 1, x, hx, (hmoved x i).1 hmem, by rwa [Nat.add_right_comm] at hplace⟩
    · rintro ⟨i, x, hx, hmem, hplace⟩
      cases i with
      | zero =>
        obtain ⟨_, rfl, rfl, rfl⟩ := hplace
        cases hx
        exact .inl ⟨[], rfl, rfl, hmem.resolve_right List.not_mem_nil, rfl⟩
      | succ i => exact .inr ⟨i, x, hx, (hmoved x i).2 hmem, by rwa [Nat.add_right_comm]⟩

theorem checkDistinct_reports (duplicate : String → ConfigError) (ids : List String) :
    ReportsFirst (checkDistinct duplicate ids) fun place err =>
      ∃ i id, Repeated ids i id ∧ place = [i] ∧ err = duplicate id := by
  have hfrom := (checkDistinctFrom_reports (k := 0) duplicate [] ids).reports
  refine hfrom.congr fun place err => ⟨?_, ?_⟩
  · rintro ⟨i, id, hi, hmem, _, rfl, rfl, rfl⟩
    exact ⟨i, id, ⟨hi, hmem.resolve_left List.not_mem_nil⟩, by rw [Nat.zero_add], rfl⟩
  · rintro ⟨i, id, ⟨hi, hmem⟩, rfl, rfl⟩
    exact ⟨i, id, hi, .inr hmem, [], by rw [Nat.zero_add], rfl, rfl⟩

def BadGrant (p : Principal) (grants : List String) : Place → ConfigError → Prop :=
  Among grants fun grant => Here (Refused p grant)

theorem checkGrants_reports (p : Principal) (grants : List String) :
    ReportsFirst (each (checkGrant p) grants) (BadGrant p grants) :=
  each_reportsFirst (fun _ => reportsFirst_here fun _ => checkGrant_eq_error_iff) grants

theorem checkUser_reports (declared : List String) (u : UserDecl) :
    ReportsFirst (checkUser declared u) fun place err =>
      At 0 (BadGrant (.user u.id) u.grants) place err ∨
        At 1 (Among u.roles fun role => Here fun err =>
          role ∉ declared ∧ err = .unknownRole u.id role) place err := by
  have hrole : ∀ role, ReportsFirst (checkMembership declared u.id role)
      (Here fun err => role ∉ declared ∧ err = .unknownRole u.id role) := fun role =>
    reportsFirst_here fun _ => checkMembership_eq_error_iff
  exact ((checkGrants_reports (.user u.id) u.grants).cons (each_reportsFirst hrole _).last).reports

/-! ### Operations entity by entity -/

theorem each_append {ε α : Type} {check : α → Except ε Unit} {xs ys : List α} :
    each check (xs ++ ys) = (do each check xs; each check ys) := by
  induction xs with
  | nil => rfl
  | cons x xs ih =>
    rw [List.cons_append, each, each, ih]
    cases check x with
    | ok u => rfl
    | error e => rfl

theorem each_flatMap {ε α β : Type} {check : β → Except ε Unit} {f : α → List β} {xs : List α} :
    each check (xs.flatMap f) = each (fun a => each check (f a)) xs := by
  induction xs with
  | nil => rfl
  | cons x xs ih => rw [List.flatMap_cons, each_append, ih, each]

theorem each_map {ε α β : Type} {check : β → Except ε Unit} {f : α → β} {xs : List α} :
    each check (xs.map f) = each (fun a => check (f a)) xs := by
  induction xs with
  | nil => rfl
  | cons x xs ih => rw [List.map_cons, each, ih, each]

theorem checkOperations_reports (c : Config) :
    ReportsFirst (each checkOperation c.operations)
      (Among c.entities fun e => Among e.actions fun a => Here fun err =>
        ∃ reason, Capability.narrow e.name a.name = .error reason ∧
          err = .invalidOperation e.name a.name reason) := by
  rw [operations, each_flatMap]
  refine each_reportsFirst (fun e => ?_) c.entities
  rw [each_map]
  exact each_reportsFirst
    (fun a => reportsFirst_here fun _ => checkOperation_eq_error_iff) e.actions

/-! ### The whole validation -/

/-- A validation reports the first thing that is wrong. -/
theorem validate_reports (c : Config) : ReportsFirst c.validate (Breaks c) := by
  have hundeclared : ∀ role, role ∉ c.roles.map (·.id) ↔ ∀ r ∈ c.roles, r.id ≠ role := by
    simp
  have hsections := (checkOperations_reports c).cons (k := 0) <|
    (checkDistinct_reports .duplicateRole (c.roles.map (·.id))).cons <|
    (checkDistinct_reports .duplicateUser (c.users.map (·.id))).cons <|
    (each_reportsFirst (fun r => checkGrants_reports (.role r.id) r.grants) c.roles).cons <|
    (each_reportsFirst (checkUser_reports (c.roles.map (·.id))) c.users).last
  refine hsections.reports.congr fun place err => ⟨?_, ?_⟩
  · rintro (⟨_, rfl, i, e, he, _, rfl, j, a, ha, _, rfl, rfl, reason, h, rfl⟩ |
      ⟨_, rfl, i, id, h, rfl, rfl⟩ | ⟨_, rfl, i, id, h, rfl, rfl⟩ |
      ⟨_, rfl, i, r, hr, _, rfl, j, grant, hg, _, rfl, rfl, h⟩ |
      ⟨_, rfl, i, u, hu, _, rfl, ⟨_, rfl, j, grant, hg, _, rfl, rfl, h⟩ |
        ⟨_, rfl, j, role, hrole, _, rfl, rfl, h, rfl⟩⟩)
    · exact .operation he ha h
    · exact .role h
    · exact .user h
    · exact .roleGrant hr hg h
    · exact .userGrant hu hg h
    · exact .membership hu hrole ((hundeclared role).1 h)
  · intro h
    cases h with
    | operation he ha h =>
      exact .inl ⟨_, rfl, _, _, he, _, rfl, _, _, ha, _, rfl, rfl, _, h, rfl⟩
    | role h => exact .inr (.inl ⟨_, rfl, _, _, h, rfl, rfl⟩)
    | user h => exact .inr (.inr (.inl ⟨_, rfl, _, _, h, rfl, rfl⟩))
    | roleGrant hr hg h =>
      exact .inr (.inr (.inr (.inl ⟨_, rfl, _, _, hr, _, rfl, _, _, hg, _, rfl, rfl, h⟩)))
    | userGrant hu hg h =>
      exact .inr (.inr (.inr (.inr ⟨_, rfl, _, _, hu, _, rfl,
        .inl ⟨_, rfl, _, _, hg, _, rfl, rfl, h⟩⟩)))
    | membership hu hrole h =>
      exact .inr (.inr (.inr (.inr ⟨_, rfl, _, _, hu, _, rfl,
        .inr ⟨_, rfl, _, _, hrole, _, rfl, rfl, (hundeclared _).2 h, rfl⟩⟩)))

end Warrant.Config
