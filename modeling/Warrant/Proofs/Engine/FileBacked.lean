import Mathlib.Data.List.Basic
import Warrant.Engine.Request
import Warrant.Proofs.Catalog.File
import Warrant.Proofs.Engine.Refinement

/-!
# Engines on catalogs in files

An engine on a catalog in a file answers as one in memory does that begins with the same set,
request after request, also if the file is opened anew in between (`file_answers_as_memory`). The
relation between the two is `FileCatalog.Mirrors`, which every request keeps.
-/

namespace Warrant

open Call

namespace FileCatalog

variable {path : String} {P : Files.Tree → Prop}

/-- The file at the path holds the entries of the catalog in memory, and the files are as `P`
says. -/
structure Mirrors (path : String) (P : Files.Tree → Prop) (c : FileCatalog) (m : MemoryCatalog) :
    Prop where
  path_eq : c.path = path
  keeps : Keeps path c.files m.entries
  files : P c.files

theorem mirrors_alike (hP : KeptByBatch path P) :
    CatalogsAlike (Mirrors path P) := by
  have hlaws := (law path P hP).alike MemoryCatalog.law (fun _ _ => id) fun _ _ => id
  have hsame : (fun c m => ∃ s, (law path P hP).Holds c s ∧ MemoryCatalog.law.Holds m s) =
      Mirrors path P := by
    funext c m
    refine propext ⟨?_, fun ⟨hpath, hkeeps, hfiles⟩ => ⟨_, ⟨hpath, hkeeps, hfiles⟩, rfl⟩⟩
    rintro ⟨s, ⟨hpath, hkeeps, hfiles⟩, rfl⟩
    exact ⟨hpath, hkeeps, hfiles⟩
  rw [hsame] at hlaws
  exact hlaws

end FileCatalog

namespace Engine

/-! ### Requests -/

variable {κ κ' : Type} [CatalogStore κ] [CatalogStore κ']

theorem perform_alike {R : κ → κ' → Prop} (h : CatalogsAlike R) (q : Request) :
    Simulates (Like false R) (q.perform : Op κ Reply) q.perform := by
  cases q with
  | load => exact (onCatalog_alike h.load).bind fun _ => simulates_pure _
  | contains capability =>
    exact (onCatalog_alike (h.contains capability)).bind fun _ => simulates_pure _
  | addAll batch => exact (onCatalog_alike (h.addAll batch)).bind fun _ => simulates_pure _
  | removeAll batch => exact (onCatalog_alike (h.removeAll batch)).bind fun _ => simulates_pure _
  | resolveAccess p entity action =>
    exact (resolveAccess_alike h p entity action).bind fun _ => simulates_pure _
  | authorize p entity action =>
    exact (authorize_alike h p entity action).bind fun _ => simulates_pure _
  | assign p capability => exact (assign_alike h p capability).bind fun _ => simulates_pure _
  | revoke p capability => exact (revoke_alike p capability).bind fun _ => simulates_pure _
  | replace p capabilities => exact (replace_alike h p capabilities).bind fun _ => simulates_pure _
  | planSync r => exact (planSync_alike h r).bind fun _ => simulates_pure _
  | previewSync r => exact (runSync_alike h r true).bind fun _ => simulates_pure _
  | synchronize r => exact (runSync_alike h r false).bind fun _ => simulates_pure _

/-- The answers to requests one after the other, and the engine after them. Before a request that
is marked the catalog is opened anew. -/
def serve (reopen : Engine κ → Engine κ) (e : Engine κ) : List (Bool × Request) →
    List Answer × Engine κ
  | [] => ([], e)
  | (anew, q) :: rest =>
    let out := q.perform (if anew then reopen e else e)
    let later := serve reopen out.state rest
    (out.answer :: later.1, later.2)

/-- A new engine with the same grants on a new catalog at the same path. -/
def reopened (e : Engine FileCatalog) : Engine FileCatalog :=
  new e.grants ⟨e.catalog.path, e.catalog.files⟩

/-! ### Files and memory -/

variable {path : String} {P Q : Files.Tree → Prop} {e : Engine FileCatalog}
  {m : Engine MemoryCatalog}

open FileCatalog

theorem Like.with_files (h : Like false (Mirrors path P) e m) (hQ : Q e.catalog.files) :
    Like false (Mirrors path Q) e m :=
  { h with catalogs := ⟨h.catalogs.path_eq, h.catalogs.keeps, hQ⟩ }

theorem reopened_like (anew : Bool) (h : Like false (Mirrors path P) e m) :
    Like false (Mirrors path P) (if anew then reopened e else e) m := by
  cases anew with
  | true => exact ⟨h.grants, rfl, h.guard', h.catalogs⟩
  | false => exact h

theorem serve_alike (hP : KeptByBatch path P)
    (script : List (Bool × Request)) (h : Like false (Mirrors path P) e m) :
    (serve reopened e script).1 = (serve id m script).1 ∧
      Like false (Mirrors path P) (serve reopened e script).2 (serve id m script).2 := by
  induction script generalizing e m with
  | nil => exact ⟨rfl, h⟩
  | cons step rest ih =>
    obtain ⟨anew, q⟩ := step
    obtain ⟨hanswer, hnext⟩ := perform_alike (mirrors_alike hP) q _ m (reopened_like anew h)
    have hid : (if anew then id m else m) = m := ite_self m
    obtain ⟨hanswers, hlast⟩ := ih hnext
    rw [serve, serve, hid]
    exact ⟨congrArg₂ List.cons hanswer hanswers, hlast⟩

/-! ### Temporary files -/

/-- The request changes the catalog by a batch at least. -/
def Request.Batches : Request → Answer → Prop
  | addAll _, _ | removeAll _, _ => True
  | synchronize _, .ok (.report report) => report.isNoop = false
  | _, _ => False

theorem noTemporary_of_change {f : TextSet → TextSet} (h : Like false (Mirrors path P) e m)
    (hone : ¬ TwoNames path e.catalog.files) :
    NoTemporary path (onCatalog (FileCatalog.change f) e).state.catalog.files := by
  obtain ⟨rfl, hkeeps, -⟩ := h.catalogs
  obtain ⟨files', events, hchange, -, hclears⟩ := change_of_keeps f hkeeps
  show NoTemporary _ (FileCatalog.change f e.catalog).state.files
  rw [hchange]
  exact hclears.gone hone

/-- A run that has something to do does not leave the files as they are. -/
theorem noTemporary_of_synchronize {r : Registry} {report : Report}
    (h : Like false (Mirrors path P) e m) (hone : ¬ TwoNames path e.catalog.files)
    (hreport : (synchronize r e).answer = .ok report) (hnoop : report.isNoop = false) :
    NoTemporary path (synchronize r e).state.catalog.files := by
  have hwritten : Like false (Mirrors path (SameOrCleared path e.catalog.files)) e m :=
    h.with_files ⟨hone, .inl rfl⟩
  obtain ⟨hanswer, hlike⟩ :=
    runSync_alike (mirrors_alike (keptByBatch_sameOrCleared _)) r false e m hwritten
  have hkeeps := hlike.catalogs.keeps
  rcases hlike.catalogs.files.files with hsame | hgone
  · -- The set in memory has changed, so the file cannot be the same.
    obtain ⟨hmemory, k, hk, hstate⟩ := runSync_of_free r false MemoryCatalog.law (fun _ _ => id)
      h.guard' rfl
    obtain rfl : report = _ := Except.ok.inj (hreport.symm.trans (hanswer.trans hmemory))
    have hlegal : (runSync r false m).state.catalog.entries = r.legal := by
      rw [hstate]
      exact hk
    rw [hsame, hlegal] at hkeeps
    have hsets : m.catalog.entries = r.legal := h.catalogs.keeps.unique hkeeps
    rw [hsets, TextSet.sdiff_self] at hnoop
    cases hnoop
  · exact hgone

theorem noTemporary_of_batch {q : Request} (h : Like false (Mirrors path P) e m)
    (hone : ¬ TwoNames path e.catalog.files) (hbatch : q.Batches (q.perform e).answer) :
    NoTemporary path (q.perform e).state.catalog.files := by
  cases q with
  | addAll batch =>
    have hstate : (Request.perform (.addAll batch) e).state =
        (onCatalog (CatalogStore.addAll batch) e).state := state_bind_pure
    rw [hstate]
    exact noTemporary_of_change h hone
  | removeAll batch =>
    have hstate : (Request.perform (.removeAll batch) e).state =
        (onCatalog (CatalogStore.removeAll batch) e).state := state_bind_pure
    rw [hstate]
    exact noTemporary_of_change h hone
  | synchronize r =>
    have hstate : (Request.perform (.synchronize r) e).state = (Engine.synchronize r e).state :=
      state_bind_pure
    have hanswer : (Request.perform (.synchronize r) e).answer =
        (Engine.synchronize r e).answer.map .report := answer_bind_pure
    rw [hanswer] at hbatch
    rw [hstate]
    cases hreport : (Engine.synchronize r e).answer with
    | ok report =>
      rw [hreport] at hbatch
      exact noTemporary_of_synchronize h hone hreport hbatch
    | error f =>
      rw [hreport] at hbatch
      exact hbatch.elim
  | _ => exact hbatch.elim

/-- Once a batch was made, no temporary file is left, whatever is asked later. -/
theorem noTemporary_of_serve (script : List (Bool × Request)) (h : Like false (Mirrors path P) e m)
    (hone : ¬ TwoNames path e.catalog.files)
    (hbatch : ∃ step ∈ script.zip (serve reopened e script).1, step.1.2.Batches step.2) :
    NoTemporary path (serve reopened e script).2.catalog.files := by
  induction script generalizing e m P with
  | nil =>
    obtain ⟨step, hmem, -⟩ := hbatch
    cases hmem
  | cons first rest ih =>
    obtain ⟨anew, q⟩ := first
    have hanew : ¬ TwoNames path (if anew then reopened e else e).catalog.files := by
      cases anew with
      | true => exact hone
      | false => exact hone
    have hlike : Like false (Mirrors path (SameOrCleared path _)) _ m :=
      (reopened_like anew h).with_files ⟨hanew, .inl rfl⟩
    have hnext := (perform_alike (mirrors_alike (keptByBatch_sameOrCleared _)) q _ m hlike).2
    rw [serve] at hbatch ⊢
    obtain ⟨step, hmem, hstep⟩ := hbatch
    rcases List.mem_cons.1 hmem with rfl | hmem
    · have hgone := noTemporary_of_batch hlike hanew hstep
      have hlast := (serve_alike keptByBatch_noTemporary rest (hnext.with_files hgone)).2
      exact hlast.catalogs.files
    · exact ih hnext hnext.catalogs.files.one ⟨step, hmem, hstep⟩

/-- On a catalog in a file and on one in memory that begin with the same set, engines give the same
answers to all requests, however often the file is opened anew, and the file holds the set in memory
throughout. The files are as they were, or there is no temporary file, and there is none after a
batch; but a temporary path that is a second name of the catalog stays that. -/
theorem file_answers_as_memory (grants : GrantStore) (path : String) (files : Files.Tree)
    (s : TextSet) (h : Keeps path files s) (script : List (Bool × Request)) :
    let file := serve reopened (new grants ⟨path, files⟩) script
    let memory := serve id (new grants (MemoryCatalog.mk s)) script
    file.1 = memory.1 ∧
    Keeps path file.2.catalog.files memory.2.catalog.entries ∧
    (¬ TwoNames path files →
      (file.2.catalog.files = files ∨ NoTemporary path file.2.catalog.files) ∧
      ((∃ step ∈ script.zip file.1, step.1.2.Batches step.2) →
        NoTemporary path file.2.catalog.files)) ∧
    (TwoNames path files → TwoNames path file.2.catalog.files) := by
  intro file memory
  have hstart : ∀ {P : Files.Tree → Prop}, P files →
      Like false (Mirrors path P) (new grants ⟨path, files⟩) (new grants (MemoryCatalog.mk s)) :=
    fun hfiles => ⟨rfl, rfl, rfl, rfl, h, hfiles⟩
  have hP : KeptByBatch path fun _ => True := fun _ _ _ _ => trivial
  obtain ⟨hanswers, hlast⟩ := serve_alike hP script (hstart trivial)
  refine ⟨hanswers, hlast.catalogs.keeps, fun hone => ⟨?_, ?_⟩, fun htwo => ?_⟩
  · have hcleared :=
      (serve_alike (keptByBatch_sameOrCleared files) script (hstart ⟨hone, .inl rfl⟩)).2
    exact hcleared.catalogs.files.files
  · exact noTemporary_of_serve script (hstart (P := fun _ => True) trivial) hone
  · exact (serve_alike keptByBatch_twoNames script (hstart htwo)).2.catalogs.files

/-- Where the temporary path is a second name of the catalog, it is still there after a batch. -/
theorem second_name_stays :
    let files := (Files.Tree.fresh.put ["work", "catalog.json"] (.file "[\"a\"]".toUTF8)).share
      ["work", "catalog.json"] ["work", "catalog.json.tmp"]
    let file := serve reopened (new .empty ⟨"catalog.json", files⟩)
      [(false, .addAll (TextSet.ofList ["b"]))]
    Keeps "catalog.json" files (TextSet.ofList ["a"]) ∧ file.1 = [.ok .done] ∧
      file.2.catalog.files.node? ["work", "catalog.json.tmp"] =
        some (.file "[\n  \"a\",\n  \"b\"\n]".toUTF8) ∧
      ¬ NoTemporary "catalog.json" file.2.catalog.files := by
  intro files file
  have hunlinked : files.Unlinked := Files.Tree.unlinked_of_nodes
    (by simp [files, Files.Tree.share, Files.Tree.put, Files.Tree.fresh, Files.Tree.ofEntries])
  have hkeeps : Keeps "catalog.json" files (TextSet.ofList ["a"]) :=
    ⟨hunlinked, ⟨_, .inr ⟨_, rfl, by decide +kernel⟩⟩, ⟨_, _, rfl, .inr ⟨_, rfl⟩⟩⟩
  have hstays : file.2.catalog.files.node? ["work", "catalog.json.tmp"] =
      some (.file "[\n  \"a\",\n  \"b\"\n]".toUTF8) := by decide +kernel
  have htwo : TwoNames "catalog.json" files := ⟨_, _, _, rfl, rfl, by decide⟩
  have hlike : Like false (Mirrors "catalog.json" (TwoNames "catalog.json"))
      (new .empty ⟨"catalog.json", files⟩) (new .empty (MemoryCatalog.mk (TextSet.ofList ["a"]))) :=
    ⟨rfl, rfl, rfl, rfl, hkeeps, htwo⟩
  obtain ⟨-, hlast⟩ := serve_alike keptByBatch_twoNames _ hlike
  exact ⟨hkeeps, by decide +kernel, hstays, fun hnone => hnone.not_twoNames hlast.catalogs.files⟩

/-- A file in no order and with a repetition, beside the remains of a batch that broke off. -/
theorem unordered_file_answers :
    let files := (Files.Tree.fresh.put ["work", "catalog.json"]
      (.file "[\"post:old\", \"::\",\n\"post:old\"]".toUTF8)).put
        ["work", "catalog.json.tmp"] (.file "[".toUTF8)
    let script : List (Bool × Request) := [(false, .contains "post:old"),
      (true, .synchronize ⟨[⟨"p\n\"é", "a", true, false⟩]⟩), (true, .load)]
    let legal := TextSet.ofList ["*:*:*", "p\n\"é:*", "p\n\"é:a"]
    let file := serve reopened (new .empty ⟨"catalog.json", files⟩) script
    Keeps "catalog.json" files (TextSet.ofList ["::", "post:old"]) ∧
      file.1 = [.ok (.flag true),
        .ok (.report ⟨legal, TextSet.ofList ["::", "post:old"], false⟩), .ok (.set legal)] ∧
      NoTemporary "catalog.json" file.2.catalog.files := by
  intro files script legal
  have hunlinked : files.Unlinked :=
    (Files.Tree.unlinked_fresh.put_file (List.cons_ne_nil _ _)).put_file (List.cons_ne_nil _ _)
  have hkeeps : Keeps "catalog.json" files (TextSet.ofList ["::", "post:old"]) :=
    ⟨hunlinked, ⟨_, .inr ⟨_, rfl, by decide +kernel⟩⟩, ⟨_, _, rfl, .inr ⟨_, rfl⟩⟩⟩
  have hone : ¬ TwoNames "catalog.json" files := by
    rintro ⟨l, m, content, hfind, hfind', -⟩
    cases hfind
    cases hfind'
  have hserved := file_answers_as_memory .empty "catalog.json" files _ hkeeps script
  have hmemory : (serve id (new .empty (MemoryCatalog.mk (TextSet.ofList ["::", "post:old"])))
      script).1 = [.ok (.flag true),
        .ok (.report ⟨legal, TextSet.ofList ["::", "post:old"], false⟩), .ok (.set legal)] := by
    decide +kernel
  have hnoop : (Report.mk legal (TextSet.ofList ["::", "post:old"]) false).isNoop = false := by
    decide +kernel
  generalize serve reopened _ script = file at hserved ⊢
  obtain ⟨hanswers, -, hgone, -⟩ := hserved
  rw [hmemory] at hanswers
  refine ⟨hkeeps, hanswers, (hgone hone).2 ?_⟩
  rw [hanswers]
  exact ⟨((true, .synchronize _), .ok (.report _)), List.mem_cons_of_mem _ List.mem_cons_self,
    hnoop⟩

end Engine

end Warrant
