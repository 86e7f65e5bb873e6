import FlowMigration.Proofs.Migration.Opening

/-!
# How far a migration comes

A migration looks through its packages one after the other and saves its configuration after each of
them, whoever takes part. What it has come to stays when it fails.

* `ConfigStore.Kept`: the disk keeps a store; every save goes on with that (`Kept.saved`).
* `Passage`: packages that have been looked through, with what was found. The step is
  `Passage.next`, the run over a list `runs_passage`.
* `exists_passage_of_plan`: every migration whose configuration was opened and whose manifests were
  found passes its packages up to the first that cannot be looked through.
-/

namespace FlowMigration

open ConfigStore (Savable Since fileName openAt)

/-! ## Stores that are kept -/

namespace ConfigStore

/-- A disk keeps the store of the repository at `place`: opened again over the same defaults it is
the same, and it can be saved. -/
structure Kept (prettier recast : Bool) (root : String) (place : List String) (disk : Disk)
    (store : ConfigStore) : Prop where
  canonical : root = Disk.pathOf place
  path : store.path = Path.join root fileName
  keepable : store.config.Keepable
  savable : Savable disk root place
  opens : (openAt root (.fresh prettier recast)).Runs disk (.ok store) disk

variable {prettier recast : Bool} {disk : Disk} {root : String} {place : List String}
  {store store' : ConfigStore}

/-- A `store` is `Kept` once it was saved. -/
theorem Savable.kept (h : Savable disk root place) (hcanonical : root = Disk.pathOf place)
    (hpath : store.path = Path.join root fileName) (hkeep : store.config.Keepable) :
    Kept prettier recast root place (disk.withFile (place ++ [fileName]) store.text.toUTF8)
      store := by
  have hready := h.withFile store.text.toUTF8 hcanonical
  have hfile := h.get?_withFile store.text.toUTF8
  have hsettled : Settled (disk.withFile (place ++ [fileName]) store.text.toUTF8) root place :=
    ⟨hready, Node.kindAt_eq_file.2 ⟨_, hfile⟩⟩
  have hopens := runs_openAt_text hsettled hfile (parse_text hkeep prettier recast)
  rw [← hpath] at hopens
  exact ⟨hcanonical, hpath, hkeep, hready.savable, hopens⟩

/-- **What `store'` saves over a kept store** is `Kept`. -/
theorem Kept.saved (h : Kept prettier recast root place disk store)
    (hpath : store'.path = store.path) (hother : store'.config.other = store.config.other) :
    Kept prettier recast root place (disk.withFile (place ++ [fileName]) store'.text.toUTF8)
      store' :=
  h.savable.kept h.canonical (hpath.trans h.path) (keepable_of_other h.keepable hother)

theorem retain_of_stale {live : List String} (h : store.stale live = []) :
    store.retain live = store := by
  have hpackages : (store.config.packages.filter fun key => live.contains key) =
      store.config.packages := by
    refine Dict.ext_entries (List.filter_eq_self.2 fun e he => ?_)
    have hlive := List.filter_eq_nil_iff.1 h e.1 (List.mem_map_of_mem he)
    simpa using hlive
  rw [retain, hpackages]

/-- **A store whose stale packages are dropped** is `Kept`. -/
theorem Kept.dropped (h : Kept prettier recast root place disk store) (live : List String) :
    ∃ disk', (Migration.dropStale store live).Runs disk (.ok (store.retain live)) disk' ∧
      Since place disk disk' ∧ Kept prettier recast root place disk' (store.retain live) := by
  obtain ⟨disk', hruns, hdisk'⟩ := Migration.runs_dropStale h.savable h.path live
  refine ⟨disk', hruns, ?_⟩
  rw [hdisk']
  split
  · next hstale => exact ⟨.refl, by rwa [retain_of_stale hstale]⟩
  · exact ⟨.withFile _, h.saved rfl rfl⟩

/-- **A store that was opened** is `Kept`, if its file holds no foreign doubles. -/
theorem exists_kept {p q : Progress} (hlegal : p.disk.Legal) {settings : Settings}
    (hroot : settings.findRoot p.disk = .ok root) (hne : root ≠ "")
    (hfree : (p.disk.entry (Path.join root fileName ++ ".tmp")).isOk = false)
    (hwhole : ∀ text, p.disk.read (Path.join root fileName) = .ok text → WholeText text)
    (hopen : openAt root (.fresh prettier recast) p = (.ok store, q)) :
    ∃ place, Savable p.disk root place ∧ Since place p.disk q.disk ∧
      (openAt root (.fresh prettier recast)).Runs p.disk (.ok store) q.disk ∧
      Kept prettier recast root place q.disk store := by
  obtain ⟨place, h⟩ := exists_savable hlegal.wellFormed hne (ne_ok_of_isOk hfree) hopen
  have hcanonical := Settings.eq_pathOf_of_findRoot hlegal hroot h.located
  refine ⟨place, h, ?_⟩
  cases hexists : p.disk.pathExists (Path.join root fileName) with
  | true =>
    have hruns := runs_openAt_found hexists (.fresh prettier recast)
    obtain ⟨hload, hq⟩ := hruns.of_eq hopen
    obtain ⟨text, hread, hpath, hparse⟩ := load_eq_ok.1 hload
    rw [← hq]
    exact ⟨.refl, hload ▸ hruns, hcanonical, hpath, keepable_of_parse (hwhole text hread) hparse,
      h, hload ▸ hruns⟩
  | false =>
    have hruns := runs_openAt_missing h hexists (.fresh prettier recast)
    obtain ⟨hstore, hq⟩ := hruns.of_eq hopen
    cases hstore
    rw [← hq]
    exact ⟨.withFile _, hruns, h.kept hcanonical rfl (keepable_fresh prettier recast)⟩

end ConfigStore

open ConfigStore (Kept)

/-! ## Packages that are passed -/

/-- A run over packages has looked through those of `done`, with what is in `scans`: each was found
on the first disk or one with another configuration, and the configuration that the disk keeps has
them all. -/
structure Passage (prettier recast : Bool) (root sources : String) (place : List String)
    (store : ConfigStore) (disk : Disk) (done : List TopologyEntry) (scans : List PackageScan)
    (disk' : Disk) : Prop where
  length : scans.length = done.length
  found : ∀ f ∈ done.zip scans, ∃ before, Since place disk before ∧
    PackageScan.found before root f.1 sources = .ok f.2
  since : Since place disk disk'
  kept : Kept prettier recast root place disk' (store.recordAll done scans)

namespace Passage

variable {prettier recast : Bool} {root sources : String} {place : List String}
  {store : ConfigStore} {disk disk' : Disk} {done : List TopologyEntry} {scans : List PackageScan}

theorem start (h : Kept prettier recast root place disk store) :
    Passage prettier recast root sources place store disk [] [] disk :=
  ⟨rfl, by simp, .refl, h⟩

/-- **One package `entry` first**, and then those of a `Passage`. -/
theorem next {entry : TopologyEntry} {scan : PackageScan}
    (hscan : PackageScan.found disk root entry sources = .ok scan)
    (h : Passage prettier recast root sources place (store.record entry.key scan.config)
      (disk.withFile (place ++ [fileName]) (store.record entry.key scan.config).text.toUTF8)
      done scans disk') :
    Passage prettier recast root sources place store disk (entry :: done) (scan :: scans) disk' := by
  have hsince : Since place disk (disk.withFile (place ++ [fileName])
      (store.record entry.key scan.config).text.toUTF8) := .withFile _
  refine ⟨by rw [List.length_cons, List.length_cons, h.length], fun f hf => ?_,
    hsince.trans h.since, h.kept⟩
  rw [List.zip_cons_cons, List.mem_cons] at hf
  rcases hf with rfl | hf
  · exact ⟨disk, .refl, hscan⟩
  · obtain ⟨before, hbefore, hfound⟩ := h.found f hf
    exact ⟨before, hsince.trans hbefore, hfound⟩

/-- What happened since `disk` happened since an earlier one, called `origin`. -/
theorem earlier {origin : Disk} (hs : Since place origin disk)
    (h : Passage prettier recast root sources place store disk done scans disk') :
    Passage prettier recast root sources place store origin done scans disk' := by
  refine ⟨h.length, fun f hf => ?_, hs.trans h.since, h.kept⟩
  obtain ⟨before, hbefore, hfound⟩ := h.found f hf
  exact ⟨before, hs.trans hbefore, hfound⟩

end Passage

/-- What a run over packages comes to when `rest` are left: the value if there are none, or the
failure of the first of them, which cannot be looked through. -/
def EndsAt {α : Type} (root sources : String) (disk : Disk) (r : Except Failure α) (a : α) :
    List TopologyEntry → Prop
  | [] => r = .ok a
  | entry :: _ => ∃ failure, PackageScan.found disk root entry sources = .error failure ∧
    r = .error failure

namespace Migration

variable {prettier recast : Bool} {root sources : String} {place : List String} {disk : Disk}

/-- **The run over packages** passes the `entries` up to the first that cannot be looked through. -/
theorem runs_passage (registry : Registry) (collaborators : Option Collaborators) (total : Nat)
    (entries : List TopologyEntry) (index : Nat) (stage : Stage)
    (h : Kept prettier recast root place disk stage.store) :
    ∃ done rest scans r disk' conversions, entries = done ++ rest ∧
      (migratePackages root sources registry collaborators total index stage entries).Runs disk r
        disk' ∧
      Passage prettier recast root sources place stage.store disk done scans disk' ∧
      EndsAt root sources disk' r ⟨stage.store.recordAll done scans,
        stage.packages ++ List.zipWith (fun entry scan =>
          packageReport registry entry scan.usage) done scans, conversions⟩ rest := by
  induction entries generalizing disk index stage with
  | nil =>
    refine ⟨[], [], [], .ok stage, disk, stage.conversions, rfl, .pure _, .start h, ?_⟩
    rw [List.zipWith_nil_left, List.append_nil]
    rfl
  | cons entry rest ih =>
    rw [migratePackages]
    cases hscan : PackageScan.found disk root entry sources with
    | error failure =>
      exact ⟨[], entry :: rest, [], .error failure, disk, none, rfl,
        .bind (.say _) (.bind_error (runs_migratePackage_error registry collaborators stage hscan)),
        .start h, failure, hscan, rfl⟩
    | ok scan =>
      obtain ⟨tally, hown⟩ := runs_migratePackage h.savable registry collaborators stage h.path hscan
      obtain ⟨done, left, scans, r, disk', conversions, rfl, hruns, hpassage, hends⟩ :=
        ih (index + 1) ⟨stage.store.record entry.key scan.config,
          stage.packages ++ [packageReport registry entry scan.usage],
          stage.conversions.map (·.append tally)⟩ (h.saved rfl rfl)
      refine ⟨entry :: done, left, scan :: scans, r, disk', conversions, rfl,
        .bind (.say _) (.bind hown hruns), hpassage.next hscan, ?_⟩
      rw [List.append_assoc] at hends
      exact hends

/-- What is reported when all packages have been passed, with their `scans`. -/
def reportOf (root : String) (records : List ManifestRecord) (scans : List PackageScan)
    (conversions : Option Tally) : Report where
  root := root
  configPath := Path.join root fileName
  packages := List.zipWith (fun entry scan =>
    packageReport (Registry.build records) entry scan.usage) (Topology.build records) scans
  manifestsFailed := (records.filter (·.hasErrors)).length
  nameConflicts := (Registry.build records).conflicts
  conversions := conversions

/-- **The run of `planAt`** once the configuration was opened and the manifests of `records` were
found. -/
theorem runs_planAt_passage (settings : Settings) (collaborators : Option Collaborators)
    {before : Disk} {store : ConfigStore} {records : List ManifestRecord}
    (hopen : (openAt root (.fresh settings.prettier settings.recast)).Runs before (.ok store) disk)
    (h : Kept prettier recast root place disk store)
    (hload : ManifestRecord.load disk root = .ok records) :
    ∃ done rest scans r disk' conversions, Topology.build records = done ++ rest ∧
      (planAt root settings collaborators).Runs before r disk' ∧
      Passage prettier recast root settings.sources place
        (store.retain ((Topology.build records).map (·.key))) disk done scans disk' ∧
      EndsAt root settings.sources disk' r (reportOf root records scans conversions) rest := by
  obtain ⟨disk₁, hdrop, hsince, hkept⟩ := h.dropped ((Topology.build records).map (·.key))
  let allowed := collaborators.map
    (allowed (store.retain ((Topology.build records).map (·.key))).config)
  obtain ⟨done, rest, scans, r, disk', conversions, hsplit, hruns, hpassage, hends⟩ :=
    runs_passage (Registry.build records) allowed (Topology.build records).length
      (Topology.build records) 0 ⟨_, [], allowed.map fun _ => {}⟩ hkept
  refine ⟨done, rest, scans, _, disk', conversions, hsplit,
    runs_planAt_of_packages hopen hload hdrop hruns, hpassage.earlier hsince, ?_⟩
  cases rest with
  | nil =>
    rw [List.append_nil] at hsplit
    rw [show r = _ from hends, reportOf, hsplit, ← h.path]
    rfl
  | cons entry rest =>
    obtain ⟨failure, hfound, rfl⟩ := hends
    exact ⟨failure, hfound, rfl⟩

/-- **How far `plan` comes** where the configuration can be opened and the manifests are found. -/
theorem exists_passage_of_plan {settings : Settings} {collaborators : Option Collaborators}
    {p opened : Progress} (hlegal : p.disk.Legal) (hroot : settings.findRoot p.disk = .ok root)
    (hfree : (p.disk.entry (Path.join root fileName ++ ".tmp")).isOk = false)
    (hwhole : ∀ text, p.disk.read (Path.join root fileName) = .ok text →
      ConfigStore.WholeText text)
    {store : ConfigStore} {records : List ManifestRecord}
    (hopen : openAt root (.fresh settings.prettier settings.recast) p = (.ok store, opened))
    (hload : ManifestRecord.load opened.disk root = .ok records)
    {r : Except Failure Report} {q : Progress}
    (hrun : plan settings collaborators { disk := p.disk } = (r, q)) :
    ∃ place done rest scans conversions, Savable p.disk root place ∧
      Since place p.disk opened.disk ∧
      Kept settings.prettier settings.recast root place opened.disk store ∧
      Topology.build records = done ++ rest ∧
      Passage settings.prettier settings.recast root settings.sources place
        (store.retain ((Topology.build records).map (·.key))) opened.disk done scans q.disk ∧
      EndsAt root settings.sources q.disk r (reportOf root records scans conversions) rest := by
  have hne : root ≠ "" := by
    obtain ⟨there, hthere⟩ := locate_of_load hload
    exact (Disk.locate_eq_ok.1 hthere).2.1
  obtain ⟨place, hsavable, hsince, hopens, hkept⟩ :=
    ConfigStore.exists_kept hlegal hroot hne hfree hwhole hopen
  obtain ⟨done, rest, scans, r', disk', conversions, hsplit, hruns, hpassage, hends⟩ :=
    runs_planAt_passage { settings with root := some root } collaborators hopens hkept hload
  have hplanned : (plan settings collaborators).Runs ({ disk := p.disk } : Progress).disk r' disk' :=
    runs_plan hroot hruns
  obtain ⟨rfl, rfl⟩ := hplanned.of_eq hrun
  exact ⟨place, done, rest, scans, conversions, hsavable, hsince, hkept, hsplit, hpassage, hends⟩

end Migration

end FlowMigration
