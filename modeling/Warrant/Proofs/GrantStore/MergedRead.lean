import Mathlib.Data.List.Infix
import Warrant.Proofs.GrantStore.Change

/-!
# Reading the grants of a user while the store changes

A call for the grants of a user takes two steps: it reads the roles of the user, and then the direct
grants of the user and of those roles. Other parties may change the store before, between and after
the two (`run`). What the call answers is decided by the changes between them (`readAcross`).

Where the memberships of the user change only after the grants of its sources have, the answer is
what the user held at one moment between the steps. In general it is not: a role that the user has
left may be given a grant before its grants are read (`left_role_is_merged`). No other grant is
answered that the user never held (`merged_read_amid_changes`).
-/

namespace Warrant.GrantStore

/-! ### The steps of a call -/

/-- How far a call for the grants of a user has come. -/
inductive Reading where
  | begun
  /-- It knows the roles and reads the grants next. -/
  | knowing (roles : TextSet)
  | answered (grants : TextSet)
deriving DecidableEq

/-- What happens next to the store and the call. -/
inductive Move where
  /-- The call takes a step. -/
  | read
  /-- Another party changes the store. -/
  | change (ch : Change)

def Reading.next (user : String) (g : GrantStore) : Reading → Reading
  | begun => knowing (g.rolesOf user)
  | knowing roles => answered (g.grantsThrough user roles)
  | answered grants => answered grants

def move (user : String) : Reading × GrantStore → Move → Reading × GrantStore
  | (reading, g), .read => (reading.next user g, g)
  | (reading, g), .change ch => (reading, g.after ch)

def run (user : String) (moves : List Move) (start : Reading × GrantStore) :
    Reading × GrantStore :=
  moves.foldl (move user) start

/-- What a call answers that reads the roles of a user from `first` and then, after the changes
`between`, the grants. -/
def readAcross (user : String) (first : GrantStore) (between : List Change) : TextSet :=
  (between.foldl after first).grantsThrough user (first.rolesOf user)

/-- The call takes its first step after the changes `earlier`, and its second after `between`. -/
def Overlaps (moves : List Move) (earlier between : List Change) : Prop :=
  ∃ rest, moves = earlier.map .change ++ .read :: (between.map .change ++ .read :: rest)

/-- The store is `now` at some moment between the steps of the call. -/
def Moment (user : String) (moves : List Move) (g now : GrantStore) : Prop :=
  ∃ passed roles, passed <+: moves ∧ run user passed (.begun, g) = (.knowing roles, now)

variable {user s role : String} {g : GrantStore} {ch : Change}
  {earlier between passed : List Change} {moves : List Move} {answer roles : TextSet}
  {reading : Reading} {p : Principal}

theorem readAcross_nil (user : String) (g : GrantStore) :
    readAcross user g [] = g.grants (.user user) := rfl

theorem run_append (xs ys : List Move) (start : Reading × GrantStore) :
    run user (xs ++ ys) start = run user ys (run user xs start) := List.foldl_append

theorem run_changes (changes : List Change) :
    run user (changes.map .change) (reading, g) = (reading, changes.foldl after g) := by
  induction changes generalizing g with
  | nil => rfl
  | cons ch rest ih => exact ih

theorem run_answered : (run user moves (.answered answer, g)).1 = .answered answer := by
  induction moves generalizing g with
  | nil => rfl
  | cons m rest ih =>
    cases m with
    | read => exact ih
    | change ch => exact ih

theorem run_of_overlaps (h : Overlaps moves earlier between) :
    (run user moves (.begun, g)).1 =
      .answered (readAcross user (earlier.foldl after g) between) := by
  obtain ⟨rest, rfl⟩ := h
  rw [run_append, run_changes]
  show (run user (between.map .change ++ .read :: rest) (.knowing _, _)).1 = _
  rw [run_append, run_changes]
  exact run_answered

theorem moment_of_prefix (h : Overlaps moves earlier between) (hpassed : passed <+: between) :
    Moment user moves g (passed.foldl after (earlier.foldl after g)) := by
  obtain ⟨rest, rfl⟩ := h
  obtain ⟨coming, rfl⟩ := hpassed
  refine ⟨earlier.map .change ++ .read :: passed.map .change, (earlier.foldl after g).rolesOf user,
    ⟨coming.map .change ++ .read :: rest, by simp⟩, ?_⟩
  rw [run_append, run_changes]
  exact run_changes passed

theorem exists_step_of_knowing (h : (run user moves (.knowing roles, g)).1 = .answered answer) :
    ∃ (between : List Change) (rest : List Move), moves = between.map .change ++ .read :: rest := by
  induction moves generalizing g with
  | nil => cases h
  | cons m rest ih =>
    cases m with
    | read => exact ⟨[], rest, rfl⟩
    | change ch =>
      obtain ⟨between, rest', hmoves⟩ := ih h
      exact ⟨ch :: between, rest', by rw [hmoves]; rfl⟩

theorem overlaps_of_answered (h : (run user moves (.begun, g)).1 = .answered answer) :
    ∃ earlier between, Overlaps moves earlier between := by
  induction moves generalizing g with
  | nil => cases h
  | cons m rest ih =>
    cases m with
    | read =>
      obtain ⟨between, rest', hmoves⟩ := exists_step_of_knowing h
      exact ⟨[], between, rest', by rw [hmoves]; rfl⟩
    | change ch =>
      obtain ⟨earlier, between, rest', hmoves⟩ := ih h
      exact ⟨ch :: earlier, between, rest', by rw [hmoves]; rfl⟩

/-! ### Changes between the steps -/

theorem mem_direct_of_foldl (h : s ∈ (between.foldl after g).direct p) :
    s ∈ g.direct p ∨ ∃ ch ∈ between, ch.Gives p s := by
  induction between generalizing g with
  | nil => exact .inl h
  | cons ch rest ih =>
    rcases ih h with hafter | ⟨ch', hch', hgives⟩
    · exact (mem_direct_of_after hafter).imp_right fun hgives => ⟨ch, List.mem_cons_self, hgives⟩
    · exact .inr ⟨ch', List.mem_cons_of_mem ch hch', hgives⟩

theorem eq_addRole (h : role ∉ g.rolesOf user) (hjoined : role ∈ (g.after ch).rolesOf user) :
    ch = .addRole user role := by
  cases ch with
  | addRole u r =>
    obtain ⟨rfl, rfl⟩ := (mem_rolesOf_addRole.1 hjoined).resolve_right h
    rfl
  | removeRole u r => exact absurd (mem_rolesOf_removeRole.1 hjoined).1 h
  | _ => exact absurd hjoined h

theorem addRole_mem_of_foldl (h : role ∈ (between.foldl after g).rolesOf user)
    (hfirst : role ∉ g.rolesOf user) : .addRole user role ∈ between := by
  induction between generalizing g with
  | nil => exact absurd h hfirst
  | cons ch rest ih =>
    by_cases hnext : role ∈ (g.after ch).rolesOf user
    · rw [eq_addRole hfirst hnext]
      exact List.mem_cons_self
    · exact List.mem_cons_of_mem ch (ih h hnext)

theorem eq_removeRole (h : role ∈ g.rolesOf user) (hleft : role ∉ (g.after ch).rolesOf user) :
    ch = .removeRole user role := by
  cases ch with
  | addRole u r => exact absurd (mem_rolesOf_addRole.2 (.inr h)) hleft
  | removeRole u r =>
    have hgone : user = u ∧ role = r :=
      Decidable.byContradiction fun hother => hleft (mem_rolesOf_removeRole.2 ⟨h, hother⟩)
    rw [hgone.1, hgone.2]
  | _ => exact absurd h hleft

/-! ### One moment for the whole answer -/

/-- Once the memberships of the user have changed, the grants of none of its sources do. -/
def GrantsFirst (g : GrantStore) (user : String) (between : List Change) : Prop :=
  between.Pairwise fun a b =>
    a.subject = .rolesOf user → ∀ p, g.Source user p → b.subject ≠ .grantsOf p

theorem grantsThrough_congr {g' : GrantStore}
    (h : ∀ p, g.Source user p → g'.direct p = g.direct p) :
    g'.grantsThrough user (g.rolesOf user) = g.grants (.user user) := by
  ext s
  rw [grants, mem_grantsThrough, mem_grantsThrough, h _ (.inl rfl)]
  refine or_congr_right (exists_congr fun role => and_congr_right fun hrole => ?_)
  rw [h _ (.inr ⟨role, hrole, rfl⟩)]

/-- Up to the first change of the memberships the user keeps its roles, and from there on its
sources keep their grants: at that moment the user held the answer. -/
theorem exists_moment (h : GrantsFirst g user between) :
    ∃ passed, passed <+: between ∧
      readAcross user g between = (passed.foldl after g).grants (.user user) := by
  induction between generalizing g with
  | nil => exact ⟨[], List.prefix_rfl, readAcross_nil user g⟩
  | cons ch rest ih =>
    obtain ⟨hch, hrest⟩ := List.pairwise_cons.1 h
    by_cases hsubject : ch.subject = .rolesOf user
    · refine ⟨[], List.nil_prefix, grantsThrough_congr fun p hp => direct_foldl_of_ne ?_⟩
      refine List.forall_mem_cons.2 ⟨?_, fun ch' hch' => hch ch' hch' hsubject p hp⟩
      rw [hsubject]
      exact nofun
    · have hroles : (g.after ch).rolesOf user = g.rolesOf user := rolesOf_after_of_ne hsubject
      have hfirst : GrantsFirst (g.after ch) user rest :=
        hrest.imp fun hab hmember p hp => hab hmember p ((source_congr hroles).1 hp)
      obtain ⟨passed, hpassed, hanswer⟩ := ih hfirst
      refine ⟨ch :: passed, (List.cons_prefix_cons).2 ⟨rfl, hpassed⟩, ?_⟩
      rw [readAcross, hroles] at hanswer
      exact hanswer

/-! ### Grants that were held at no moment -/

/-- What a role holds in the end, which the user had in the beginning, the user held at some moment,
or it left the role and the role was given it afterwards. -/
theorem held_or_given (hrole : role ∈ g.rolesOf user)
    (hs : s ∈ (between.foldl after g).direct (.role role)) :
    (∃ passed, passed <+: between ∧ s ∈ (passed.foldl after g).grants (.user user)) ∨
      ∃ staying leaving, between = staying ++ .removeRole user role :: leaving ∧
        ∃ ch ∈ leaving, ch.Gives (.role role) s := by
  by_cases hnow : s ∈ g.direct (.role role)
  · exact .inl ⟨[], List.nil_prefix, mem_grantsThrough.2 (.inr ⟨role, hrole, hnow⟩)⟩
  induction between generalizing g with
  | nil => exact absurd hs hnow
  | cons ch rest ih =>
    by_cases hstays : role ∈ (g.after ch).rolesOf user
    · by_cases hnext : s ∈ (g.after ch).direct (.role role)
      · refine .inl ⟨[ch], (List.cons_prefix_cons).2 ⟨rfl, List.nil_prefix⟩, ?_⟩
        exact mem_grantsThrough.2 (.inr ⟨role, hstays, hnext⟩)
      · rcases ih hstays hs hnext with
          ⟨passed, hpassed, hheld⟩ | ⟨staying, leaving, hrest, hgiven⟩
        · exact .inl ⟨ch :: passed, (List.cons_prefix_cons).2 ⟨rfl, hpassed⟩, hheld⟩
        · exact .inr ⟨ch :: staying, leaving, by rw [hrest]; rfl, hgiven⟩
    · obtain rfl := eq_removeRole hrole hstays
      have hrest : s ∈ (rest.foldl after (g.after (.removeRole user role))).direct (.role role) :=
        hs
      exact .inr ⟨[], rest, rfl, (mem_direct_of_foldl hrest).resolve_left hnow⟩

/-- A call that has answered took its two steps amid changes of the store, and answers what it read
across the changes between them. If the memberships of the user change only after the grants of its
sources, this is what the user held at one moment between the steps. Without that, a grant in the
answer which the user held at no such moment is one of a role that the user left, and that was given
the grant afterwards; and a grant which the user held at every such moment, and which the answer
lacks, is one of a role that the user joined. -/
theorem merged_read_amid_changes (user : String) (g : GrantStore) (moves : List Move) :
    (∀ answer, (run user moves (.begun, g)).1 = .answered answer →
      ∃ earlier between, Overlaps moves earlier between) ∧
    ∀ earlier between, Overlaps moves earlier between →
      let first := earlier.foldl after g
      let answer := readAcross user first between
      (run user moves (.begun, g)).1 = .answered answer ∧
      (GrantsFirst first user between →
        ∃ now, Moment user moves g now ∧ answer = now.grants (.user user)) ∧
      (∀ s ∈ answer, (∃ now, Moment user moves g now ∧ s ∈ now.grants (.user user)) ∨
        ∃ role staying leaving, between = staying ++ .removeRole user role :: leaving ∧
          ∃ ch ∈ leaving, ch.Gives (.role role) s) ∧
      ∀ s ∉ answer, (∃ now, Moment user moves g now ∧ s ∉ now.grants (.user user)) ∨
        ∃ role, .addRole user role ∈ between ∧
          s ∈ (between.foldl after first).direct (.role role) := by
  refine ⟨fun _ => overlaps_of_answered, ?_⟩
  intro earlier between hoverlaps first answer
  have hlast : Moment user moves g (between.foldl after first) :=
    moment_of_prefix hoverlaps List.prefix_rfl
  refine ⟨run_of_overlaps hoverlaps, fun hfirst => ?_, fun s hs => ?_, fun s hs => ?_⟩
  · obtain ⟨passed, hpassed, hanswer⟩ := exists_moment hfirst
    exact ⟨_, moment_of_prefix hoverlaps hpassed, hanswer⟩
  · rcases mem_grantsThrough.1 hs with hown | ⟨role, hrole, hthrough⟩
    · exact .inl ⟨_, hlast, mem_grantsThrough.2 (.inl hown)⟩
    · rcases held_or_given hrole hthrough with ⟨passed, hpassed, hheld⟩ | hgiven
      · exact .inl ⟨_, moment_of_prefix hoverlaps hpassed, hheld⟩
      · exact .inr ⟨role, hgiven⟩
  · by_cases hheld : s ∈ (between.foldl after first).grants (.user user)
    · rcases mem_grantsThrough.1 hheld with hown | ⟨role, hrole, hthrough⟩
      · exact absurd (mem_grantsThrough.2 (.inl hown)) hs
      · refine .inr ⟨role, addRole_mem_of_foldl hrole fun hbefore => hs ?_, hthrough⟩
        exact mem_grantsThrough.2 (.inr ⟨role, hbefore, hthrough⟩)
    · exact .inl ⟨_, hlast, hheld⟩

/-- A role is given a grant, and then the user leaves it: the answer is what the user held between
the two changes, and neither before nor after them. -/
theorem merged_read_before_leaving :
    let delete : Capability := ⟨"post", "delete", false, by decide, by decide⟩
    let g := ofConfig ⟨[], [⟨"editor", []⟩], [⟨"ann", ["editor"], []⟩]⟩
    let between : List Change := [.assign (.role "editor") delete, .removeRole "ann" "editor"]
    let moves : List Move := .read :: (between.map .change ++ [.read])
    let answer := TextSet.ofList ["post:delete"]
    (run "ann" moves (.begun, g)).1 = .answered answer ∧
      (∃ now, Moment "ann" moves g now ∧ answer = now.grants (.user "ann")) ∧
      g.grants (.user "ann") = ∅ ∧ (between.foldl after g).grants (.user "ann") = ∅ := by
  intro delete g between moves answer
  have hoverlaps : Overlaps moves [] between := ⟨[], rfl⟩
  have hfirst : GrantsFirst g "ann" between := by
    refine List.Pairwise.cons (fun _ _ => nofun) (List.pairwise_singleton _ _)
  have hanswer : readAcross "ann" g between = answer := by decide
  obtain ⟨-, hread⟩ := merged_read_amid_changes "ann" g moves
  obtain ⟨hend, hmoment, -⟩ := hread [] between hoverlaps
  rw [show ([] : List Change).foldl after g = g from rfl, hanswer] at hend hmoment
  exact ⟨hend, hmoment hfirst, by decide, by decide⟩

/-- A user leaves a role, which is given a grant only then: a call that read the roles before that
answers the grant, which the user held at no moment. -/
theorem left_role_is_merged :
    let delete : Capability := ⟨"post", "delete", false, by decide, by decide⟩
    let g := ofConfig ⟨[], [⟨"editor", []⟩], [⟨"ann", ["editor"], []⟩]⟩
    let moves : List Move := [.read, .change (.removeRole "ann" "editor"),
      .change (.assign (.role "editor") delete), .read]
    (run "ann" moves (.begun, g)).1 = .answered (TextSet.ofList ["post:delete"]) ∧
      ∀ passed, passed <+: moves →
        (run "ann" passed (.begun, g)).2.grants (.user "ann") = ∅ := by
  intro delete g moves
  refine ⟨by decide, fun passed hpassed => ?_⟩
  have hmoments : ∀ passed ∈ moves.inits,
      (run "ann" passed (.begun, g)).2.grants (.user "ann") = ∅ := by decide
  exact hmoments passed ((List.mem_inits passed moves).2 hpassed)

end Warrant.GrantStore
