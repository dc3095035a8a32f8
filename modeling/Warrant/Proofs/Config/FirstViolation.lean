import Mathlib.Data.List.Forall2
import Warrant.Proofs.Config.Soundness
import Warrant.Proofs.Config.Violations
import Warrant.Proofs.Toml.Sections

/-!
# The first violation

A validation accepts just if nothing is wrong anywhere, and otherwise reports what is wrong at the
first place (`validate_reports_first`). How often a grant or a role is named, in which order the
sections of a document stand, and whether a user has the name of a role makes no difference.
-/

namespace Warrant.Config

/-- The same roles and users name the same things, in another order perhaps and more or less often;
the users may have other names, also those of roles. -/
structure Alike (c c' : Config) : Prop where
  entities : c'.entities = c.entities
  roles : List.Forall₂ (fun r r' => r'.id = r.id ∧ ∀ grant, grant ∈ r'.grants ↔ grant ∈ r.grants)
    c.roles c'.roles
  users : List.Forall₂ (fun u u' => (∀ grant, grant ∈ u'.grants ↔ grant ∈ u.grants) ∧
    ∀ role, role ∈ u'.roles ↔ role ∈ u.roles) c.users c'.users
  users_distinct : (c'.users.map (·.id)).Nodup ↔ (c.users.map (·.id)).Nodup

theorem forall_mem_iff_of_forall₂ {α β : Type} {R : α → β → Prop} {A : α → Prop} {B : β → Prop}
    {xs : List α} {ys : List β} (h : List.Forall₂ R xs ys) (hR : ∀ x y, R x y → (B y ↔ A x)) :
    (∀ y ∈ ys, B y) ↔ ∀ x ∈ xs, A x := by
  induction h with
  | nil => simp
  | cons hxy _ ih => rw [List.forall_mem_cons, List.forall_mem_cons, hR _ _ hxy, ih]

theorem Alike.validate_eq_ok_iff {c c' : Config} (h : Alike c c') :
    c'.validate = .ok () ↔ c.validate = .ok () := by
  have hoperations : c'.operations = c.operations := by rw [operations, operations, h.entities]
  have hids : c.roles.map (·.id) = c'.roles.map (·.id) := by
    rw [← List.forall₂_eq_eq_eq, List.forall₂_map_left_iff, List.forall₂_map_right_iff]
    exact h.roles.imp fun _ _ hr => hr.1.symm
  rw [Config.validate_eq_ok_iff, Config.validate_eq_ok_iff, hoperations, ← hids]
  simp only [checkDistinct_eq_ok_iff, checkGrant_eq_ok_iff, h.users_distinct]
  refine and_congr_right' (and_congr_right' (and_congr_right' (and_congr ?_ ?_)))
  · exact forall_mem_iff_of_forall₂ h.roles fun r r' hr => forall_congr' fun grant =>
      imp_congr_left (hr.2 grant)
  · refine forall_mem_iff_of_forall₂ h.users fun u u' hu => and_congr ?_ ?_
    · exact forall_congr' fun grant => imp_congr_left (hu.1 grant)
    · refine forall_congr' fun role => ?_
      rw [hu.2 role, checkMembership_eq_ok_iff, checkMembership_eq_ok_iff]

/-- A validation accepts just if nothing is wrong, and otherwise reports what is wrong at the first
place; this decides what is said of a text that describes the configuration. It makes no difference
in which order a document has sections of different names, how often a grant or a role is named, and
whether a user has the name of a role. -/
theorem validate_reports_first (c : Config) :
    (c.validate = .ok () ↔ ∀ place err, ¬ Breaks c place err) ∧
    (∀ err, c.validate = .error err ↔
      ∃ place, Breaks c place err ∧ ∀ earlier < place, ∀ other, ¬ Breaks c earlier other) ∧
    (∀ text, (statementsOf? text >>= described?) = some c →
      parse text = c.validate.map fun _ => c) ∧
    (∀ statements swapped, Swapped statements swapped → described? statements = some c →
      described? swapped = some c) ∧
    ∀ c', Alike c c' → (c'.validate = .ok () ↔ c.validate = .ok ()) := by
  have hreports := validate_reports c
  refine ⟨hreports.eq_ok_iff, fun err => hreports.eq_error_iff Breaks.unique, fun text htext => ?_,
    fun _ _ hswapped hc => (described?_swap hswapped).symm.trans hc,
    fun c' => Alike.validate_eq_ok_iff⟩
  rw [parse, read?_eq, htext]
  dsimp only
  cases c.validate with
  | ok u => rfl
  | error err => rfl

/-- Of five things that are wrong the first one is reported. A user with the name of a role, which
names it twice and before it is declared, is accepted; the document with the role first is the
same. -/
theorem bad_operation_reported_first :
    let bad : Config := ⟨[⟨"post", [⟨"edit", true, false⟩, ⟨"a:b", true, false⟩]⟩],
      [⟨"mod", ["::"]⟩, ⟨"mod", []⟩], [⟨"ann", ["ghost"], ["*:edit"]⟩]⟩
    let accepted : Config := ⟨[], [⟨"ann", []⟩], [⟨"ann", ["ann", "ann"], []⟩]⟩
    let user : List Toml.Statement := [.itemHeader ⟨[], "users"⟩, .pair ⟨[], "id"⟩ (.text "ann"),
      .pair ⟨[], "roles"⟩ (.array [.text "ann", .text "ann"])]
    let role : List Toml.Statement := [.itemHeader ⟨[], "roles"⟩, .pair ⟨[], "id"⟩ (.text "ann")]
    (∃ place, Breaks bad place (.invalidOperation "post" "a:b" (.separatorInSegment "a:b")) ∧
        ∀ earlier < place, ∀ other, ¬ Breaks bad earlier other) ∧
      Breaks bad [1, 1] (.duplicateRole "mod") ∧
      Breaks bad [3, 0, 0] (.invalidGrant (.role "mod") (.emptySegment "::")) ∧
      Breaks bad [4, 0, 0, 0] (.unreachableGrant (.user "ann") "*:edit") ∧
      Breaks bad [4, 0, 1, 0] (.unknownRole "ann" "ghost") ∧
      (∀ place err, ¬ Breaks accepted place err) ∧
      parse ("[[users]]\nid = \"ann\"\nroles = [\"ann\", \"ann\"]\n" ++
        "[[roles]]\nid = \"ann\"\n") = .ok accepted ∧
      described? (role ++ user) = some accepted := by
  intro bad accepted user role
  have hroles : Repeated ["mod", "mod"] 1 "mod" := ⟨rfl, by decide⟩
  have hgrant : Refused (.role "mod") "::" (.invalidGrant (.role "mod") (.emptySegment "::")) :=
    .malformed rfl
  have hunreachable : Refused (.user "ann") "*:edit" (.unreachableGrant (.user "ann") "*:edit") :=
    .unreachable rfl rfl
  have hundeclared : Breaks bad [4, 0, 1, 0] (.unknownRole "ann" "ghost") :=
    .membership (u := ⟨"ann", ["ghost"], ["*:edit"]⟩) rfl rfl (by decide)
  have hvalid : accepted.validate = .ok () := rfl
  have hswapped : Swapped (user ++ role) (role ++ user) :=
    ⟨[], [], [], (.itemHeader ⟨[], "users"⟩, _), (.itemHeader ⟨[], "roles"⟩, _), by decide,
      rfl, rfl⟩
  obtain ⟨haccepted, -, hparse, hswap, -⟩ := validate_reports_first accepted
  refine ⟨((validate_reports_first bad).2.1 _).1 rfl, .role hroles, .roleGrant rfl rfl hgrant,
    .userGrant rfl rfl hunreachable, hundeclared, haccepted.1 hvalid, ?_,
    hswap _ _ hswapped (by decide +kernel)⟩
  rw [hparse _ (by decide +kernel), hvalid]
  rfl

end Warrant.Config
