import Warrant.CommandLine.Run
import Warrant.Proofs.Catalog.Beside
import Warrant.Proofs.Config.Soundness
import Warrant.Proofs.Engine.Request
import Warrant.Proofs.Engine.Synchronization

/-!
# The commands agree with each other

Two runs of the program share nothing but files. While the configuration stands beside the catalog,
a synchronisation leaves it alone, so every later command reads the same one (`sync_carried_out`);
a run that is dry, or that finds nothing to do, leaves all files alone (`sync_at_rest`). So the dry
run announces what the synchronisation does, a second one has nothing to do, and from then on the
configuration alone decides (`commands_agree`).
-/

namespace Warrant.CommandLine

open FileCatalog (Keeps Beside entriesAt)

variable {arguments : List String} {files : Files.Tree} {c : Config} {s : TextSet}
  {config catalog user entity action : String} {dryRun : Bool}

/-! ### One run -/

theorem run_of_config {command : Command}
    (harguments : Request.ofArguments arguments = .run command)
    (hconfig : Config.ofFile files command.config = .ok c) :
    run arguments files = command.runWith c files := by
  unfold run
  rw [harguments]
  show command.run files = _
  rw [Command.run, hconfig]

theorem finish_of_answer {α : Type} {op : Engine.Op FileCatalog α} {lines : α → List String}
    {e : Engine FileCatalog} {a : α} (h : (op e).answer = .ok a) :
    finish op lines e = ⟨0, CommandLine.lines (lines a), "", (op e).state.catalog.files⟩ := by
  unfold finish
  dsimp only
  rw [h]

theorem exists_place_of_config (h : Config.ofFile files config = .ok c) :
    ∃ place, files.find .content config = .ok place ∧ place.node ≠ some .directory := by
  unfold Config.ofFile at h
  cases hread : files.readText config with
  | error reason => rw [hread] at h; cases h
  | ok text =>
    obtain ⟨content, hcontent, -⟩ := exists_of_bind_ok hread
    obtain ⟨place, hplace, hnode⟩ := exists_of_bind_ok hcontent
    refine ⟨place, hplace, fun hdir => ?_⟩
    rw [hdir] at hnode
    cases hnode

theorem ofFile_congr {files' : Files.Tree}
    (h : files'.find .content config = files.find .content config) :
    Config.ofFile files' config = Config.ofFile files config := by
  unfold Config.ofFile Files.Tree.readText Files.Tree.read
  rw [h]

/-! ### Synchronisations -/

/-- What a synchronisation prints, with its words for the two counts. -/
def changeText (add remove : String) (added removed : TextSet) : String :=
  lines (changeLines add "+" added ++ changeLines remove "-" removed ++
    if removed.isEmpty then []
    else ["grants on removed capabilities no longer take effect; re-grant renamed ones"])

/-- A run that is dry, or that finds the legal set in the catalog, leaves the files as they are. -/
theorem sync_at_rest (hconfig : Config.ofFile files config = .ok c)
    (hcatalog : Keeps catalog files s)
    (harguments : Request.ofArguments arguments = .run (.sync config catalog dryRun))
    (hrest : dryRun = true ∨ s = c.registry.legal) :
    run arguments files = ⟨0, lines (reportLines
      ⟨c.registry.legal \ s, s \ c.registry.legal, dryRun⟩), "", files⟩ := by
  obtain ⟨events, hrun⟩ := Engine.runSync_of_load (e := engineFor c catalog files) rfl
    (FileCatalog.load_of_keeps hcatalog) hrest
  rw [run_of_config harguments hconfig, Command.runWith, finish_of_answer (by rw [hrun]), hrun]
  rfl

/-- After a synchronisation the catalog holds the legal set, and the configuration is as it was. -/
theorem sync_carried_out (hconfig : Config.ofFile files config = .ok c)
    (hcatalog : Keeps catalog files s) (hbeside : Beside files catalog config)
    (harguments : Request.ofArguments arguments = .run (.sync config catalog false)) :
    ∃ files', run arguments files = ⟨0, lines (reportLines
        ⟨c.registry.legal \ s, s \ c.registry.legal, false⟩), "", files'⟩ ∧
      Keeps catalog files' c.registry.legal ∧ Config.ofFile files' config = .ok c := by
  obtain ⟨law, hnever, hholds, hlaw⟩ := hcatalog.exists_law
  obtain ⟨hanswer, k, hk, hstate⟩ := Engine.runSync_of_free (e := engineFor c catalog files)
    c.registry false law hnever rfl hholds
  obtain ⟨-, hkeeps, hfind⟩ := hlaw k _ hk
  obtain ⟨place, hplace, hnode⟩ := exists_place_of_config hconfig
  refine ⟨k.files, ?_, hkeeps, ?_⟩
  · rw [run_of_config harguments hconfig, Command.runWith, finish_of_answer hanswer, hstate]
  · rw [ofFile_congr ((hfind config place hbeside hplace hnode).trans hplace.symm), hconfig]

/-! ### Checks -/

/-- Where the catalog holds the legal set, the tier of a request is that of what the configuration
entitles the user to. -/
theorem check_at_rest (hconfig : Config.ofFile files config = .ok c)
    (hcatalog : Keeps catalog files c.registry.legal)
    (harguments : Request.ofArguments arguments = .run (.check config catalog user entity action)) :
    ∃ t : Tier, (run arguments files).output = lines [t.name] ∧
      (run arguments files).status = 0 ∧ (run arguments files).errors = "" ∧
      ∀ u, u ≤ t ↔ u = .none ∨ ∃ held : Capability, c.Entitles user held.render ∧
        held.render ∈ c.registry.legal ∧ held.covers entity action = true ∧ u ≤ held.tier := by
  have hsound : c.Sound := by
    unfold Config.ofFile at hconfig
    split at hconfig
    · cases hconfig
    · exact Config.validate_eq_ok_iff_sound.1 (Config.validate_of_parse hconfig)
  have hload : (CatalogStore.load (engineFor c catalog files).catalog).answer =
      .ok c.registry.legal := by
    rw [show CatalogStore.load _ = _ from FileCatalog.load_of_keeps hcatalog]
  have htier := Engine.resolveAccess_of_load (.user user) entity action hload
  rw [run_of_config harguments hconfig, Command.runWith, finish_of_answer htier]
  refine ⟨_, rfl, rfl, rfl, fun u => ?_⟩
  rw [Access.le_tierAgainst_iff]
  refine or_congr_right (exists_congr fun held => ?_)
  rw [Access.Applies, ← Config.mem_grants_iff_entitles hsound.roles_distinct hsound.users_distinct,
    and_assoc, and_assoc]
  rfl

/-! ### All of them -/

/-- With an accepted configuration beside a catalog that is missing or holds any set, the dry run
changes no file and prints what the synchronisation prints, but for the words of the counts. The
catalog then holds the set that is listed, a second synchronisation changes nothing, and a check
prints the tier of what the configuration entitles the user to. -/
theorem commands_agree (files : Files.Tree) (c : Config) (s : TextSet)
    (config catalog user entity action : String)
    (dryArguments syncArguments legalArguments checkArguments : List String)
    (hconfig : Config.ofFile files config = .ok c) (hcatalog : Keeps catalog files s)
    (hbeside : Beside files catalog config)
    (hdry : Request.ofArguments dryArguments = .run (.sync config catalog true))
    (hsync : Request.ofArguments syncArguments = .run (.sync config catalog false))
    (hlegal : Request.ofArguments legalArguments = .run (.legal config))
    (hcheck : Request.ofArguments checkArguments =
      .run (.check config catalog user entity action)) :
    let legal := c.registry.legal
    let dry := run dryArguments files
    let first := run syncArguments dry.files
    let listing := run legalArguments first.files
    let second := run syncArguments first.files
    let check := run checkArguments second.files
    (∀ e ∈ [dry, first, listing, second, check], e.status = 0 ∧ e.errors = "") ∧
    dry.files = files ∧
    dry.output = changeText "would add" "would remove" (legal \ s) (s \ legal) ∧
    first.output = changeText "added" "removed" (legal \ s) (s \ legal) ∧
    entriesAt first.files catalog = .ok legal ∧
    listing.output = lines legal.toList ∧ legal.toList.Pairwise (· < ·) ∧
    second.output = "added 0 capabilities\nremoved 0 capabilities\n" ∧
    second.files = first.files ∧
    ∃ t : Tier, check.output = lines [t.name] ∧
      ∀ u, u ≤ t ↔ u = .none ∨ ∃ held : Capability, c.Entitles user held.render ∧
        held.render ∈ legal ∧ held.covers entity action = true ∧ u ≤ held.tier := by
  intro legal dry first listing second check
  have hdry' : dry = _ := sync_at_rest hconfig hcatalog hdry (.inl rfl)
  obtain ⟨files', hfirst, hkeeps, hconfig'⟩ := sync_carried_out hconfig hcatalog hbeside hsync
  have hfirst' : first = run syncArguments files := by
    show run syncArguments dry.files = _
    rw [hdry']
  rw [hfirst] at hfirst'
  have hlisting : listing = run legalArguments files' := by
    show run legalArguments first.files = _
    rw [hfirst']
  rw [run_of_config hlegal hconfig'] at hlisting
  have hsecond : second = run syncArguments files' := by
    show run syncArguments first.files = _
    rw [hfirst']
  rw [sync_at_rest hconfig' hkeeps hsync (.inr rfl)] at hsecond
  have hcheck' : check = run checkArguments files' := by
    show run checkArguments second.files = _
    rw [hsecond]
  obtain ⟨t, houtput, hstatus, herrors, ht⟩ := check_at_rest hconfig' hkeeps hcheck
  rw [← hcheck'] at houtput hstatus herrors
  refine ⟨?_, ?_, ?_, ?_, ?_, ?_, legal.ascending, ?_, ?_, t, houtput, ht⟩
  · simp only [List.forall_mem_cons]
    rw [hdry', hfirst', hlisting, hsecond]
    exact ⟨⟨rfl, rfl⟩, ⟨rfl, rfl⟩, ⟨rfl, rfl⟩, ⟨rfl, rfl⟩, ⟨hstatus, herrors⟩, fun _ => nofun⟩
  · rw [hdry']
  · rw [hdry']
    rfl
  · rw [hfirst']
    rfl
  · rw [hfirst']
    exact FileCatalog.entriesAt_of_keeps hkeeps
  · rw [hlisting]
    rfl
  · rw [hsecond, TextSet.sdiff_self]
    rfl
  · rw [hsecond, hfirst']

/-- The catalog is in no order, with a repetition and a malformed entry, and the user holds the
global capability through a role. -/
theorem commands_agree_on_stale_catalog :
    let text := "entities = [[\"post\", [[\"edit\"]]]]\nroles = [[\"mod\", [\"*:*:*\"]]]\n" ++
      "users = [[\"ann\", [\"mod\"]]]\n"
    let files := (Files.Tree.fresh.put ["work", "app.toml"] (.file text.toUTF8)).put
      ["work", "catalog.json"] (.file "[\"post:old\", \"::\",\n\"post:old\"]".toUTF8)
    let paths := ["--config=app.toml", "--catalog", "catalog.json"]
    let dry := run ("sync" :: "--dry-run" :: paths) files
    let first := run ("sync" :: paths) dry.files
    let second := run ("sync" :: paths) first.files
    let check := run ("check" :: paths ++ ["--user=ann", "--entity=post", "--action=edit"])
      second.files
    dry.output = "would add 3 capabilities\n  + *:*:*\n  + post:*\n  + post:edit\n" ++
      "would remove 2 capabilities\n  - ::\n  - post:old\n" ++
      "grants on removed capabilities no longer take effect; re-grant renamed ones\n" ∧
    second.files = first.files ∧ check.output = "all\n" := by
  intro text files paths
  have hunlinked : files.Unlinked :=
    (Files.Tree.unlinked_fresh.put_file (List.cons_ne_nil _ _)).put_file (List.cons_ne_nil _ _)
  have hkeeps : Keeps "catalog.json" files (TextSet.ofList ["::", "post:old"]) :=
    ⟨hunlinked, ⟨_, .inr ⟨_, rfl, by decide +kernel⟩⟩, ⟨_, _, rfl, .inl rfl⟩⟩
  have hbeside : Beside files "catalog.json" "app.toml" := by
    intro place hplace
    cases hplace
    refine ⟨fun site hsite => ?_, fun site hsite => ?_⟩
    · cases hsite
      decide
    · cases hsite
      decide
  let c : Config := ⟨[⟨"post", [⟨"edit", true, false⟩]⟩], [⟨"mod", ["*:*:*"]⟩],
    [⟨"ann", ["mod"], []⟩]⟩
  have hconfig : Config.ofFile files "app.toml" = .ok c := by decide +kernel
  obtain ⟨-, -, hdry, -, -, -, -, -, hsecond, t, hcheck, ht⟩ := commands_agree files c _ "app.toml"
    "catalog.json" "ann" "post" "edit" ("sync" :: "--dry-run" :: paths) ("sync" :: paths)
    ["legal", "-capp.toml"] ("check" :: paths ++ ["--user=ann", "--entity=post", "--action=edit"])
    hconfig hkeeps hbeside (by decide +kernel) (by decide +kernel) (by decide +kernel)
    (by decide +kernel)
  have hall : t = .all := by
    refine le_antisymm t.le_all ((ht .all).2 (.inr ⟨.global, ?_, ?_, ?_, ?_⟩))
    · refine .inr ⟨_, List.mem_cons_self, rfl, "mod", List.mem_cons_self, .inl ⟨_,
        List.mem_cons_self, rfl, ?_⟩⟩
      decide
    · exact Registry.render_mem_legal_iff.2 (.inl rfl)
    · decide
    · decide
  refine ⟨hdry.trans (by decide +kernel), hsecond, ?_⟩
  rw [hcheck, hall]
  rfl

end Warrant.CommandLine
