import Mathlib.Data.List.Basic
import Warrant.Json.Forms
import Warrant.Proofs.Capability.Grammar
import Warrant.Proofs.Json.Values

/-!
# What is written is read

Each type of the domain reads the text that it writes as the same value (`RoundTrips`), also after
any other text that it accepts, and a record is read with its members in any order and others
besides, or from its values alone (`ReadsRecords`). `forms_round_trip` puts this together for all
the types.
-/

namespace Warrant.Json

open Value

variable {α β : Type}

/-! ### Lists read item by item -/

theorem mapM_eq_map {f : α → Option β} {g : α → β} {xs : List α} (h : ∀ x ∈ xs, f x = some (g x)) :
    xs.mapM f = some (xs.map g) := by
  induction xs with
  | nil => rfl
  | cons x xs ih =>
    rw [List.mapM_cons, h x List.mem_cons_self, ih fun y hy => h y (List.mem_cons_of_mem x hy)]
    rfl

theorem mapM_map_eq_some {f : β → Option α} {g : α → β} (h : ∀ x, f (g x) = some x)
    (xs : List α) : (xs.map g).mapM f = some xs := by
  rw [List.mapM_map]
  exact (mapM_eq_map (g := id) fun x _ => h x).trans (congrArg some (List.map_id xs))

theorem filter_key {ms : List (String × Value)} {m : String × Value}
    (hdistinct : (ms.map (·.1)).Nodup) (hm : m ∈ ms) : ms.filter (fun x => x.1 = m.1) = [m] := by
  induction ms with
  | nil => cases hm
  | cons x ms ih =>
    rw [List.map_cons, List.nodup_cons] at hdistinct
    obtain ⟨hx, hdistinct⟩ := hdistinct
    rcases List.mem_cons.1 hm with rfl | hm
    · have hrest : ms.filter (fun x => x.1 = m.1) = [] := by
        rw [List.filter_eq_nil_iff]
        intro y hy hkey
        exact hx (List.mem_map.2 ⟨y, hy, of_decide_eq_true hkey⟩)
      rw [List.filter_cons_of_pos (by simp), hrest]
    · have hne : x.1 ≠ m.1 := fun he => hx (List.mem_map.2 ⟨m, hm, he.symm⟩)
      rw [List.filter_cons_of_neg (by simpa using hne), ih hdistinct hm]

/-! ### Records -/

variable {ms l others : List (String × Value)}

theorem record_inj (h : record ms = record l) : ms = l := by
  have hmembers : ms.map (fun m => ((some m.1 : Text), m.2)) = l.map fun m => (some m.1, m.2) := by
    injection h
  refine List.map_injective_iff.2 ?_ hmembers
  rintro ⟨_, _⟩ ⟨_, _⟩ he
  cases he
  rfl

/-- The values of a record are found in an object that has its members in any order, with others
besides. -/
theorem fields?_record (hperm : l.Perm (ms ++ others)) (hdistinct : (ms.map (·.1)).Nodup)
    (hothers : ∀ o ∈ others, o.1 ∉ ms.map (·.1)) :
    fields? (ms.map (·.1)) (record l) = some (ms.map (·.2)) := by
  have hkeys : (l.map fun m => ((some m.1 : Text), m.2)).mapM
      (fun m => m.1.map fun key => (key, m.2)) = some l :=
    mapM_map_eq_some (by intro; rfl) l
  have hmember : ∀ m ∈ ms, member? l m.1 = some m.2 := by
    intro m hm
    have hnone : others.filter (fun x => x.1 = m.1) = [] := by
      rw [List.filter_eq_nil_iff]
      intro o ho hkey
      exact hothers o ho (List.mem_map.2 ⟨m, hm, (of_decide_eq_true hkey).symm⟩)
    have hfilter := hperm.filter fun x => x.1 = m.1
    rw [List.filter_append, filter_key hdistinct hm, hnone, List.append_nil,
      List.perm_singleton] at hfilter
    rw [member?, hfilter]
  show (List.mapM _ (l.map _) >>= fun members => (ms.map (·.1)).mapM (member? members)) = _
  rw [hkeys]
  show (ms.map (·.1)).mapM (member? l) = _
  rw [List.mapM_map]
  exact mapM_eq_map hmember

theorem bind_fields? {names : List String} {values : List Value} {v : Value} {a : α}
    {f : List Value → Option α} (hfields : fields? names v = some values)
    (h : (fields? names (array values) >>= f) = some a) : (fields? names v >>= f) = some a := by
  rw [fields?] at h
  split at h
  · rw [hfields]
    exact h
  · cases h

/-! ### Laws of forms -/

/-- Values are written plainly, and read as what they are. -/
class LawfulForm (α : Type) [Form α] : Prop where
  plain : ∀ a : α, (Form.write a).Plain
  read?_write : ∀ a : α, Form.read? (Form.write a) = some a

/-- A form that writes a record, and whose object is read as the array of its values is. -/
structure RecordForm (α : Type) [Form α] (names : List String)
    (members : α → List (String × Value)) : Prop where
  distinct : names.Nodup
  names_eq : ∀ a, (members a).map (·.1) = names
  write_eq : ∀ a, Form.write a = record (members a)
  plain : ∀ a, ∀ m ∈ members a, m.2.Plain
  read?_values : ∀ a, (Form.read? (array ((members a).map (·.2))) : Option α) = some a
  read?_of_fields : ∀ a v values, fields? names v = some values →
    (Form.read? (array values) : Option α) = some a → Form.read? v = some a

section

variable [Form α]

/-- The text of a value is read as that value; so no other value has it, and whatever text a value
was read from, writing it and reading it again changes neither the value nor its text. -/
structure RoundTrips (α : Type) [Form α] : Prop where
  parse_print : ∀ a : α, parse? α (print a) = some a
  print_inj : ∀ a b : α, print a = print b → a = b
  parse_again : ∀ (text : String) (a : α), parse? α text = some a →
    parse? α (print a) = some a ∧ (parse? α (print a)).map print = some (print a)

/-- A record is read from the array of its values; and what is read from an array of values is read
from each object that has them as its members of these names, in any order and with others
besides. -/
structure ReadsRecords (α : Type) [Form α] (names : List String) : Prop where
  values : ∀ (a : α) (ms : List (String × Value)) (text : String),
    Form.write a = record ms → Value.parse? text = some (array (ms.map (·.2))) →
      ms.map (·.1) = names ∧ parse? α text = some a
  members : ∀ (a : α) (ms l others : List (String × Value)) (inOrder text : String),
    ms.map (·.1) = names → Value.parse? inOrder = some (array (ms.map (·.2))) →
      parse? α inOrder = some a → Value.parse? text = some (record l) →
      l.Perm (ms ++ others) → (∀ o ∈ others, o.1 ∉ names) → parse? α text = some a

theorem parse?_of_value {text : String} {v : Value} (h : Value.parse? text = some v) :
    parse? α text = Form.read? v := by
  rw [parse?, h]
  rfl

theorem parse?_print [LawfulForm α] (a : α) : parse? α (print a) = some a :=
  (parse?_of_value (Value.parse?_compact (LawfulForm.plain a))).trans (LawfulForm.read?_write a)

theorem roundTrips (α : Type) [Form α] [LawfulForm α] : RoundTrips α where
  parse_print := parse?_print
  print_inj a b h := by
    have hread := parse?_print a
    rw [h, parse?_print b] at hread
    exact (Option.some.inj hread).symm
  parse_again _ a _ := by
    rw [parse?_print a]
    exact ⟨rfl, rfl⟩

namespace RecordForm

variable {names : List String} {members : α → List (String × Value)}
  (h : RecordForm α names members)

include h

theorem read?_record {a : α} (hnames : ms.map (·.1) = names)
    (hvalues : Form.read? (array (ms.map (·.2))) = some a) (hperm : l.Perm (ms ++ others))
    (hothers : ∀ o ∈ others, o.1 ∉ names) : Form.read? (record l) = some a := by
  refine h.read?_of_fields a _ _ ?_ hvalues
  subst hnames
  exact fields?_record hperm h.distinct hothers

theorem lawful : LawfulForm α where
  plain a := by
    rw [h.write_eq]
    exact plain_record (h.plain a)
  read?_write a := by
    rw [h.write_eq]
    have hperm : (members a).Perm (members a ++ []) := by rw [List.append_nil]
    exact h.read?_record (h.names_eq a) (h.read?_values a) hperm fun _ => nofun

theorem readsRecords : ReadsRecords α names where
  values a ms text hwrite htext := by
    obtain rfl := record_inj ((h.write_eq a).symm.trans hwrite)
    exact ⟨h.names_eq a, (parse?_of_value htext).trans (h.read?_values a)⟩
  members a ms l others inOrder text hnames hinOrder hread htext hperm hothers := by
    rw [parse?_of_value hinOrder] at hread
    exact (parse?_of_value htext).trans (h.read?_record hnames hread hperm hothers)

end RecordForm

end

/-! ### The types of the domain -/

theorem read?_texts (ss : List String) :
    (Form.read? (texts ss) : Option TextSet) = some (TextSet.ofList ss) := by
  have hitems : (ss.map Value.text).mapM (Form.read? : Value → Option String) = some ss :=
    mapM_map_eq_some (by intro; rfl) ss
  show ((ss.map Value.text).mapM Form.read?).map TextSet.ofList = _
  rw [hitems]
  rfl

instance : LawfulForm TextSet where
  plain s := plain_texts s.toList
  read?_write s := by
    refine (read?_texts s.toList).trans ?_
    rw [TextSet.ofList_toList]

instance : LawfulForm Capability where
  plain c := .text c.render
  read?_write c := by
    show (Capability.parse c.render).toOption = some c
    rw [Capability.parse_render]
    rfl

instance : LawfulForm Tier where
  plain t := .text t.name
  read?_write t := by cases t <;> rfl

theorem choiceWithin?_of_text {v kind : Value} {choice : String}
    (h : (Form.read? kind : Option String) = some choice) :
    choiceWithin? v kind = some choice := by
  cases kind with
  | string => cases v <;> exact h
  | _ => cases h

theorem principal_recordForm : RecordForm Principal ["kind", "id"] fun
    | .user id => [("kind", .text "user"), ("id", .text id)]
    | .role id => [("kind", .text "role"), ("id", .text id)] where
  distinct := by decide
  names_eq p := by cases p <;> rfl
  write_eq p := by cases p <;> rfl
  plain p := by cases p <;> simp [Value.Plain.text]
  read?_values p := by cases p <;> rfl
  read?_of_fields p v values hfields h := by
    change (fields? _ (array values) >>= _) = _ at h
    rw [fields?] at h
    split at h
    · rename_i hlength
      obtain ⟨kind, id, rfl⟩ := List.length_eq_two.1 hlength
      change ((Form.read? id : Option String) >>= _) = _ at h
      obtain ⟨content, hcontent, h⟩ := Option.bind_eq_some_iff.1 h
      obtain ⟨choice, hchoice, h⟩ := Option.bind_eq_some_iff.1 h
      show (fields? _ v >>= _) = _
      rw [hfields]
      show ((Form.read? id : Option String) >>= _) = _
      rw [hcontent]
      show (choiceWithin? v kind >>= _) = _
      rw [choiceWithin?_of_text hchoice]
      exact h
    · cases h

theorem operation_recordForm : RecordForm Operation
    ["entity", "action", "requires_permission", "multilevel"] fun o =>
      [("entity", .text o.entity), ("action", .text o.action),
        ("requires_permission", .bool o.gated), ("multilevel", .bool o.multilevel)] where
  distinct := by decide
  names_eq _ := rfl
  write_eq _ := rfl
  plain o := by simp [Value.Plain.text, Value.Plain.bool]
  read?_values _ := rfl
  read?_of_fields _ _ _ := bind_fields?

theorem read?_delta (added removed : List String) :
    (Form.read? (array [texts added, texts removed]) : Option Delta) =
      some ⟨.ofList added, .ofList removed⟩ := by
  show ((Form.read? (texts added) : Option TextSet) >>= fun toAdd =>
    (Form.read? (texts removed) : Option TextSet) >>= fun toRemove =>
      some (⟨toAdd, toRemove⟩ : Delta)) = _
  rw [read?_texts, read?_texts]
  rfl

theorem delta_recordForm : RecordForm Delta ["to_add", "to_remove"] fun d =>
    [("to_add", Form.write d.toAdd), ("to_remove", Form.write d.toRemove)] where
  distinct := by decide
  names_eq _ := rfl
  write_eq _ := rfl
  plain d := by simp [LawfulForm.plain]
  read?_values d := by
    refine (read?_delta d.toAdd.toList d.toRemove.toList).trans ?_
    simp
  read?_of_fields _ _ _ := bind_fields?

theorem read?_report (added removed : List String) (dryRun : Bool) :
    (Form.read? (array [texts added, texts removed, .bool dryRun]) : Option Report) =
      some ⟨.ofList added, .ofList removed, dryRun⟩ := by
  show ((Form.read? (texts added) : Option TextSet) >>= fun toAdd =>
    (Form.read? (texts removed) : Option TextSet) >>= fun toRemove =>
      some (⟨toAdd, toRemove, dryRun⟩ : Report)) = _
  rw [read?_texts, read?_texts]
  rfl

theorem report_recordForm : RecordForm Report ["added", "removed", "dry_run"] fun r =>
    [("added", Form.write r.added), ("removed", Form.write r.removed),
      ("dry_run", .bool r.dryRun)] where
  distinct := by decide
  names_eq _ := rfl
  write_eq _ := rfl
  plain r := by simp [LawfulForm.plain, Value.Plain.bool]
  read?_values r := by
    refine (read?_report r.added.toList r.removed.toList r.dryRun).trans ?_
    simp
  read?_of_fields _ _ _ := bind_fields?

theorem parse?_capability_eq_some_iff {text : String} {c : Capability} :
    parse? Capability text = some c ↔
      ∃ content, Value.parse? text = some (.text content) ∧ Capability.parse content = .ok c := by
  constructor
  · intro h
    obtain ⟨v, hv, h⟩ := Option.bind_eq_some_iff.1 h
    obtain ⟨content, hcontent, h⟩ := Option.bind_eq_some_iff.1 h
    refine ⟨content, ?_, ?_⟩
    · cases v with
      | string => exact hv.trans (congrArg (fun written => some (string written)) hcontent)
      | _ => cases hcontent
    · cases hparse : Capability.parse content with
      | ok => rw [hparse] at h; exact congrArg _ (Option.some.inj h)
      | error => rw [hparse] at h; cases h
  · rintro ⟨content, hv, hparse⟩
    rw [parse?_of_value hv]
    show (Capability.parse content).toOption = _
    rw [hparse]
    rfl

/-- Every type of the domain round-trips. The records are read from their members in any order,
with others besides, and from their values alone; the sets, alone and within a record, in any order
with repetitions; a tier also as the one member of an object. A text is read as a capability
exactly if it is a string that is one. -/
theorem forms_round_trip :
    (RoundTrips Capability ∧ RoundTrips TextSet ∧ RoundTrips Principal ∧ RoundTrips Tier ∧
      RoundTrips Operation ∧ RoundTrips Delta ∧ RoundTrips Report) ∧
    (ReadsRecords Principal ["kind", "id"] ∧
      ReadsRecords Operation ["entity", "action", "requires_permission", "multilevel"] ∧
      ReadsRecords Delta ["to_add", "to_remove"] ∧
      ReadsRecords Report ["added", "removed", "dry_run"]) ∧
    (∀ text ss, Value.parse? text = some (texts ss) → parse? TextSet text = some (.ofList ss)) ∧
    (∀ text added removed, Value.parse? text = some (array [texts added, texts removed]) →
      parse? Delta text = some ⟨.ofList added, .ofList removed⟩) ∧
    (∀ text added removed dryRun,
      Value.parse? text = some (array [texts added, texts removed, .bool dryRun]) →
        parse? Report text = some ⟨.ofList added, .ofList removed, dryRun⟩) ∧
    (∀ text (t : Tier), Value.parse? text = some (object [(some t.name, null)]) →
      parse? Tier text = some t) ∧
    ∀ text c, parse? Capability text = some c ↔
      ∃ content, Value.parse? text = some (.text content) ∧ Capability.parse content = .ok c := by
  have hprincipal := principal_recordForm.lawful
  have hoperation := operation_recordForm.lawful
  have hdelta := delta_recordForm.lawful
  have hreport := report_recordForm.lawful
  refine ⟨⟨roundTrips _, roundTrips _, roundTrips _, roundTrips _, roundTrips _, roundTrips _,
    roundTrips _⟩, ⟨principal_recordForm.readsRecords, operation_recordForm.readsRecords,
    delta_recordForm.readsRecords, report_recordForm.readsRecords⟩, fun _ ss h => ?_,
    fun _ added removed h => ?_, fun _ added removed dryRun h => ?_, fun _ t h => ?_,
    fun _ _ => parse?_capability_eq_some_iff⟩
  · exact (parse?_of_value h).trans (read?_texts ss)
  · exact (parse?_of_value h).trans (read?_delta added removed)
  · exact (parse?_of_value h).trans (read?_report added removed dryRun)
  · rw [parse?_of_value h]
    cases t <;> rfl

/-- The members of this record stand in another order, with another besides, and a set is neither
ordered nor free of repetitions. -/
theorem delta_of_shuffled_members :
    parse? Delta "\x7b\"to_remove\":[],\"note\":null,\"to_add\":[\"po:a\",\"\\né\",\"\\né\"]\x7d" =
      some ⟨.ofList ["\né", "po:a"], .ofList []⟩ := by
  have hinOrder := Value.parse?_compact
    (v := array [texts ["po:a", "\né", "\né"], texts []]) (.array (by simp [plain_texts]))
  have htext := Value.parse?_compact
    (v := record
      [("to_remove", texts []), ("note", null), ("to_add", texts ["po:a", "\né", "\né"])])
    (plain_record (by simp [plain_texts, Plain.null]))
  obtain ⟨-, ⟨-, -, hrecords, -⟩, -, hvalues, -⟩ := forms_round_trip
  have hread := hrecords.members _
    [("to_add", texts ["po:a", "\né", "\né"]), ("to_remove", texts [])] _ [("note", null)] _ _ rfl
    hinOrder (hvalues _ _ _ hinOrder) htext
    (show ([_, _] ++ [_]).Perm ([_] ++ [_, _]) from List.perm_append_comm) (by decide)
  have hset : TextSet.ofList ["po:a", "\né", "\né"] = .ofList ["\né", "po:a"] := by decide
  rw [hset] at hread
  exact hread

end Warrant.Json
