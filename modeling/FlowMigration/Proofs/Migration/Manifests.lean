import FlowMigration.Proofs.Migration.Opening
import FlowMigration.Proofs.Package.Usage
import FlowMigration.Proofs.Session.Together

/-!
# What is in manifests

Two disks that differ in what is in manifests, side by side through a migration.

* `Veiled`: the disks, with manifests that no symbolic link leads to. Saving a configuration keeps
  them so, whatever stands at its path and beside it (`Veiled.save`).
* `Topology.sameSite_build`: where packages lie follows from the paths of their manifests.
* `plan_of_other_manifests`: both migrations fail or both come to a report, and they leave the same
  configuration.
-/

namespace FlowMigration

open ConfigStore (fileName temporaryName)

/-! ## Disks that differ in manifests -/

/-- Two disks that differ at most in what is at the places `P` of some manifests, where no symbolic
link leads. -/
structure Veiled (P : List String → Prop) (disk disk' : Disk) : Prop where
  alike : Disk.AlikeBut P disk disk'
  secluded : Secluded disk.root Manifest.fileName P
  wellFormed : disk.root.WellFormed
  top : disk.root.kindAt [] = some .dir

namespace Veiled

variable {P : List String → Prop} {disk disk' : Disk} {here : List String}

theorem not_mem (h : Veiled P disk disk') {name : String} (hname : name ≠ Manifest.fileName) :
    ¬P (here ++ [name]) := by
  intro hc
  obtain ⟨there, he⟩ := h.secluded.named _ hc
  exact hname (List.singleton_inj.1 (List.append_inj' he rfl).2)

/-- A file `name` that is written on both disks. -/
theorem withFile (h : Veiled P disk disk') {name : String} (hroom : disk.root.Room here name)
    (hname : LegalName name) (content : ByteArray) :
    Veiled P (disk.withFile (here ++ [name]) content) (disk'.withFile (here ++ [name]) content) :=
  ⟨h.alike.put hroom.home name (.file content), h.secluded.put hroom content,
    h.wellFormed.put (.file content) (h.wellFormed.legal_concat hroom.home hname),
    (Node.grown_put hroom content).kindAt h.top⟩

/-- The node that a text was `Written` to takes the place of the configuration on both disks. -/
theorem move (h : Veiled P disk disk') {root : String} {node : Node}
    (hstate : ConfigStore.Written disk root here node)
    (hfree : disk.root.kindAt (here ++ [fileName]) ≠ some .dir) :
    Veiled P
      { disk with
        root := node.put (disk.root.erase (here ++ [temporaryName])) (here ++ [fileName]) }
      { disk' with
        root := node.put (disk'.root.erase (here ++ [temporaryName])) (here ++ [fileName]) } := by
  have hmoved := hstate.moved hfree
  have herased : (disk.root.erase (here ++ [temporaryName])).kindAt here = some .dir := by
    have hno : ¬here ++ [temporaryName] <+: here := fun hp => by
      have hlen := hp.length_le
      rw [List.length_append, List.length_singleton] at hlen
      omega
    rw [Node.kindAt_eq_bareAt, Node.bareAt_erase hno, ← Node.kindAt_eq_bareAt, hstate.home]
  refine ⟨(h.alike.erase (by simp)).put herased fileName node,
    h.secluded.moved hmoved (by decide) (by decide) ?_, hstate.wellFormed h.wellFormed, ?_⟩
  · intro target place hk
    rw [Node.kindAt_eq_link, hstate.stands] at hk
    exact hstate.unled target place (Option.some.inj hk)
  · rw [hmoved.same [] (by simp) (by simp), h.top]

/-! ## Saving -/

/-- **The other file is written** on both disks or on neither, and leaves the first one `Written`.
-/
theorem write (h : Veiled P disk disk') (root text : String) :
    (∃ e, disk.write (Path.join root fileName ++ ".tmp") text = .error e ∧
      disk'.write (Path.join root fileName ++ ".tmp") text = .error e) ∨
    ∃ mid mid' here node, disk.write (Path.join root fileName ++ ".tmp") text = .ok mid ∧
      disk'.write (Path.join root fileName ++ ".tmp") text = .ok mid' ∧ Veiled P mid mid' ∧
      ConfigStore.Written mid root here node := by
  simp only [Disk.write, Disk.writeBytes, Disk.writeThrough_eq, h.alike.written]
  cases hwritten : disk.written Disk.maxLinks (Path.join root fileName ++ ".tmp") with
  | error e => exact .inl ⟨e, rfl, rfl⟩
  | ok c =>
    obtain ⟨there, own, here, node, rfl, hroom, hown, hstate⟩ :=
      ConfigStore.exists_written h.wellFormed h.top hwritten text
    exact .inr ⟨_, _, here, node, rfl, rfl, h.withFile hroom hown _, hstate⟩

/-- **Saving** `store` goes the same way on both disks. -/
theorem save (h : Veiled P disk disk') (root : String) {store : ConfigStore}
    (hpath : store.path = Path.join root fileName) (log log' : List LogEntry)
    (deliveries deliveries' : List (String × String)) :
    Agree (fun _ _ => True) (store.save ⟨disk, log, deliveries⟩).1
        (store.save ⟨disk', log', deliveries'⟩).1 ∧
      Veiled P (store.save ⟨disk, log, deliveries⟩).2.disk
        (store.save ⟨disk', log', deliveries'⟩).2.disk := by
  unfold ConfigStore.save ConfigStore.temporaryPath
  rw [hpath]
  simp only [bind, Session.change]
  rcases h.write root store.text with ⟨e, hwrite, hwrite'⟩ |
    ⟨mid, mid', here, node, hwrite, hwrite', hmid, hstate⟩
  · simp only [hwrite, hwrite']
    exact ⟨.error _ _, h⟩
  simp only [hwrite, hwrite']
  have hnode' := hmid.alike.get?_leaf (hmid.not_mem (by decide)) hstate.stands hstate.leaf
  have hp := (hmid.alike.place _).trans hstate.target
  have hp' := (hmid.alike.place _).trans hstate.source
  by_cases hdir : mid.root.kindAt (here ++ [fileName]) = some .dir
  · rw [hstate.rename_eq_error hdir,
      Disk.rename_leaf_to_dir hp' hnode' hstate.leaf hp (hmid.alike.kindAt ▸ hdir)]
    exact ⟨.error _ _, hmid⟩
  · rw [hstate.rename_eq_ok hdir,
      Disk.rename_leaf hp' hnode' hstate.leaf hp (hmid.alike.kindAt ▸ hstate.home)
        (hmid.alike.kindAt ▸ hdir) (ConfigStore.Written.apart here)]
    exact ⟨.ok trivial, hmid.move hstate hdir⟩

end Veiled

/-! ## What is the same on both disks -/

/-- Two packages `e` and `e'` of one place; what is in their manifests may differ. -/
structure TopologyEntry.SameSite (e e' : TopologyEntry) : Prop where
  path : e'.record.path = e.record.path
  parts : e'.parts = e.parts
  excludes : e'.excludes = e.excludes

namespace TopologyEntry.SameSite

variable {e e' : TopologyEntry}

theorem within (h : SameSite e e') (name : String) : SameSite (e.within name) (e'.within name) :=
  ⟨h.path, by rw [TopologyEntry.within, TopologyEntry.within, h.parts],
    by rw [TopologyEntry.within, TopologyEntry.within, h.excludes]⟩

theorem key_eq (h : SameSite e e') : e'.key = e.key := by
  rw [key, key, isRoot, isRoot, dirPath, dirPath, h.parts]

theorem ofEntry_eq (h : SameSite e e') (sources : String) :
    PackageScope.ofEntry e' sources = PackageScope.ofEntry e sources := by
  rw [PackageScope.ofEntry, PackageScope.ofEntry, isRoot, isRoot, dirPath, dirPath, excludePaths,
    excludePaths, h.parts, h.excludes]

theorem collect_eq (h : SameSite e e') (scope : PackageScope) (disk : Disk) (root : String) :
    scope.collect disk root e' = scope.collect disk root e := by
  have hdirectory : PackageScope.directory root e' = PackageScope.directory root e := by
    rw [PackageScope.directory, PackageScope.directory, isRoot, isRoot, dirPath, dirPath, h.parts]
  rw [PackageScope.collect, PackageScope.collect, hdirectory, excludePaths, excludePaths, h.excludes]

end TopologyEntry.SameSite

namespace Topology

open TopologyEntry (SameSite)

variable {records records' : List ManifestRecord}

theorem map_of_sameSite {entries entries' : List TopologyEntry} {α : Type} {f : TopologyEntry → α}
    (hf : ∀ e e', SameSite e e' → f e' = f e) (h : List.Forall₂ SameSite entries entries') :
    entries'.map f = entries.map f := by
  induction h with
  | nil => rfl
  | cons he _ ih => rw [List.map_cons, List.map_cons, hf _ _ he, ih]

/-- The packages in the folder `id`: those inside are the same by induction, and so is what its own
one encloses. -/
theorem sameSite_collect (h : records'.map (·.path) = records.map (·.path)) (arena : FolderArena)
    (fuel id : Nat) :
    List.Forall₂ SameSite (collect arena records fuel id) (collect arena records' fuel id) := by
  induction fuel generalizing id with
  | zero => exact .nil
  | succ fuel ih =>
    have hinside : List.Forall₂ SameSite
        ((arena.folder id).children.flatMap fun child =>
          (collect arena records fuel child).map (·.within (arena.folder child).name))
        ((arena.folder id).children.flatMap fun child =>
          (collect arena records' fuel child).map (·.within (arena.folder child).name)) := by
      refine List.rel_flatMap (R := Eq) (List.forall₂_eq_eq_eq ▸ rfl) ?_
      rintro child _ rfl
      exact List.rel_map (fun _ _ he => he.within _) (ih child)
    have hparts := map_of_sameSite (fun _ _ he => he.parts) hinside
    simp only [collect]
    cases (arena.folder id).mark with
    | none => exact hinside
    | some i =>
      have hpath : records'[i]?.map (·.path) = records[i]?.map (·.path) := by
        rw [← List.getElem?_map, ← List.getElem?_map, h]
      rw [Option.bind_some, Option.bind_some]
      cases hi : records[i]? with
      | none =>
        rw [hi, Option.map_none, Option.map_eq_none_iff] at hpath
        rw [hpath]
        exact hinside
      | some record =>
        rw [hi, Option.map_some, Option.map_eq_some_iff] at hpath
        obtain ⟨record', hi', hpath⟩ := hpath
        rw [hi']
        exact List.rel_append hinside (.cons ⟨hpath, rfl, hparts⟩ .nil)

/-- **Where packages lie** follows from the paths of the manifests of `records`. -/
theorem sameSite_build (h : records'.map (·.path) = records.map (·.path)) :
    List.Forall₂ SameSite (build records) (build records') := by
  have hdirs : records'.map (·.dirSegments) = records.map (·.dirSegments) := by
    have hmap := congrArg (List.map fun path => (Path.segments path).dropLast) h
    rwa [List.map_map, List.map_map] at hmap
  rw [build, build, hdirs]
  exact sameSite_collect h _ _ _

end Topology

namespace Veiled

variable {P : List String → Prop} {disk disk' : Disk}

theorem of_legal (hlegal : disk.Legal) (halike : Disk.AlikeBut P disk disk')
    (hP : Secluded disk.root Manifest.fileName P) : Veiled P disk disk' :=
  ⟨halike, hP, hlegal.wellFormed, hlegal.top⟩

theorem locate_config_ne (h : Veiled P disk disk') (root : String) (c : List String) (hc : P c) :
    disk.locate (Path.join root fileName) ≠ .ok c := by
  intro hl
  have hpiece := Disk.getLast?_pieces_of_secluded h.secluded hc hl
  rw [Path.getLast?_pieces_join] at hpiece
  revert hpiece
  decide

theorem pathExists_eq (h : Veiled P disk disk') (path : String) :
    disk'.pathExists path = disk.pathExists path := by
  rw [Disk.pathExists, Disk.pathExists, h.alike.locate]

theorem findRoot_eq (h : Veiled P disk disk') (settings : Settings) :
    settings.findRoot disk' = settings.findRoot disk := by
  unfold Settings.findRoot Settings.checkoutAbove Disk.canonical?
  simp only [h.alike.locate, h.alike.workingDir, h.pathExists_eq]

/-- **The manifests that `load` finds** are the same ones. -/
theorem load_eq (h : Veiled P disk disk') (root : String) :
    (ManifestRecord.load disk' root).map (·.map (·.path)) =
      (ManifestRecord.load disk root).map (·.map (·.path)) := by
  rw [ManifestRecord.load, ManifestRecord.load,
    ManifestRecord.discover_alike h.alike h.secluded (by decide)]
  cases ManifestRecord.discover disk root with
  | error failure => rfl
  | ok found =>
    simp only [Except.map, List.map_map]
    rfl

/-- **What the files of the package `e` say** is the same: no source file is a manifest. -/
theorem found (h : Veiled P disk disk') (root : String) {e e' : TopologyEntry}
    (he : e.SameSite e') (hback : '\\' ∉ e.dirPath.toList) :
    Agree (fun scan scan' => scan'.config = scan.config ∧ scan'.files = scan.files)
      (PackageScan.found disk root e PackageScope.defaultSources)
      (PackageScan.found disk' root e' PackageScope.defaultSources) := by
  have hends : ∃ front d, Manifest.fileName.toList = front ++ [d] ∧
      d ∈ PackageScope.otherLetters := ⟨"package.jso".toList, 'n', by decide, by decide⟩
  simp only [PackageScan.found, he.ofEntry_eq, he.collect_eq,
    PackageScope.collect_alike h.alike h.secluded (show Manifest.fileName ∉ _ by decide)]
  cases hpaths : (PackageScope.ofEntry e PackageScope.defaultSources).collect disk root e with
  | error failure => exact .error _ _
  | ok paths =>
    refine .ok ⟨?_, PackageScan.files_alike h.alike h.secluded hends hback hpaths⟩
    simp only [PackageScan.ofFiles,
      PackageScan.files_alike h.alike h.secluded hends hback hpaths]
    rw [Usage.compilerOptions_ofScan]

end Veiled

/-! ## Side by side -/

namespace Migration

open Session (Together)
open TopologyEntry (SameSite)
open PackageScope (defaultSources)

variable {P : List String → Prop} {root : String}

/-- Two stores of the repository at `root` that are the same. -/
def SameStore (root : String) (store store' : ConfigStore) : Prop :=
  store' = store ∧ store.path = Path.join root fileName

/-- Two stages that have the `SameStore`; what they report may differ. -/
def SameStage (root : String) (stage stage' : Stage) : Prop :=
  SameStore root stage.store stage'.store

theorem together_save {store store' : ConfigStore} (h : SameStore root store store') :
    Together (Veiled P) (fun _ _ => True) store.save store'.save := by
  obtain ⟨rfl, hpath⟩ := h
  exact fun p p' hJ => hJ.save root hpath p.log p'.log p.deliveries p'.deliveries

theorem together_openAt (defaults : MigrationConfig) :
    Together (Veiled P) (SameStore root) (ConfigStore.openAt root defaults)
      (ConfigStore.openAt root defaults) := by
  refine .bind .disk fun disk disk' h => ?_
  rw [h.pathExists_eq]
  split
  · refine .bind (.look fun disk disk' h => ?_) fun _ _ hstore =>
      .bind (.info _ _) fun _ _ _ => .pure hstore
    have hload : ConfigStore.load defaults (Path.join root fileName) disk' =
        ConfigStore.load defaults (Path.join root fileName) disk := by
      rw [ConfigStore.load, ConfigStore.load, h.alike.read (h.locate_config_ne root)]
    rw [hload]
    cases hr : ConfigStore.load defaults (Path.join root fileName) disk with
    | error failure => exact .error _ _
    | ok store =>
      obtain ⟨-, -, hpath, -⟩ := ConfigStore.load_eq_ok.1 hr
      exact .ok ⟨rfl, hpath⟩
  · exact .bind (.info _ _) fun _ _ _ => .bind (together_save ⟨rfl, rfl⟩) fun _ _ _ =>
      .pure ⟨rfl, rfl⟩

theorem together_dropStale {store store' : ConfigStore} (h : SameStore root store store')
    (live : List String) :
    Together (Veiled P) (SameStore root) (dropStale store live) (dropStale store' live) := by
  obtain ⟨rfl, hpath⟩ := h
  have hretain : SameStore root (store'.retain live) (store'.retain live) := ⟨rfl, hpath⟩
  refine .bind (.say _ _) fun _ _ _ => ?_
  split
  · exact .pure hretain
  · exact .bind (together_save hretain) fun _ _ _ => .pure hretain

/-- What the `collaborators` make of a package, if there are any. -/
def handOver (collaborators : Option Collaborators) (root : String) (scan : PackageScan) :
    Session Tally :=
  match collaborators with
  | some c => Conversion.dispatch c root scan.config.compilerOptions scan.files
  | none => pure {}

theorem migratePackage_eq (root sources : String) (registry : Registry)
    (collaborators : Option Collaborators) (stage : Stage) (entry : TopologyEntry) :
    migratePackage root sources registry collaborators stage entry =
      PackageScan.ofEntry root entry sources >>= fun scan =>
        handOver collaborators root scan >>= fun tally =>
          (stage.store.record entry.key scan.config).save >>= fun _ => pure
            { store := stage.store.record entry.key scan.config
              packages := stage.packages ++ [packageReport registry entry scan.usage]
              conversions := stage.conversions.map (·.append tally) } := by
  unfold migratePackage handOver
  cases collaborators <;> rfl

theorem together_handOver (collaborators collaborators' : Option Collaborators)
    (scan scan' : PackageScan) :
    Together (Veiled P) (fun _ _ => True) (handOver collaborators root scan)
      (handOver collaborators' root scan') := by
  have hruns : ∀ (c : Option Collaborators) (scan : PackageScan) (disk : Disk),
      ∃ tally, (handOver c root scan).Runs disk (.ok tally) disk := by
    intro c scan disk
    cases c with
    | none => exact ⟨{}, .pure _⟩
    | some c => exact runs_dispatch c disk root _ _
  refine .of_runs fun disk disk' hJ => ?_
  obtain ⟨tally, h⟩ := hruns collaborators scan disk
  obtain ⟨tally', h'⟩ := hruns collaborators' scan' disk'
  exact ⟨_, _, _, _, h, h', .ok trivial, hJ⟩

/-- **One package**: what `migratePackage` records of it does not depend on its manifest. -/
theorem together_migratePackage (registry registry' : Registry)
    (collaborators collaborators' : Option Collaborators) {stage stage' : Stage}
    (h : SameStage root stage stage') {entry entry' : TopologyEntry}
    (he : entry.SameSite entry') (hback : '\\' ∉ entry.dirPath.toList) :
    Together (Veiled P) (SameStage root)
      (migratePackage root defaultSources registry collaborators stage entry)
      (migratePackage root defaultSources registry' collaborators' stage' entry') := by
  have hlook : Together (Veiled P)
      (fun scan scan' => scan'.config = scan.config ∧ scan'.files = scan.files)
      (PackageScan.ofEntry root entry defaultSources)
      (PackageScan.ofEntry root entry' defaultSources) :=
    .of_runs fun disk disk' hJ => ⟨_, _, _, _, runs_ofEntry disk root entry defaultSources,
      runs_ofEntry disk' root entry' defaultSources, hJ.found root he hback, hJ⟩
  rw [migratePackage_eq, migratePackage_eq]
  refine .bind hlook fun scan scan' hscan => .bind (together_handOver _ _ _ _) fun _ _ _ => ?_
  have hstore : SameStore root (stage.store.record entry.key scan.config)
      (stage'.store.record entry'.key scan'.config) := by
    rw [h.1, he.key_eq, hscan.1]
    exact ⟨rfl, h.2⟩
  exact .bind (together_save hstore) fun _ _ _ => .pure hstore

/-- **The run over the packages**, by induction over both lists of `entries`: every package keeps
the stores the same and the disks alike. -/
theorem together_migratePackages (registry registry' : Registry)
    (collaborators collaborators' : Option Collaborators) (total total' index : Nat)
    {stage stage' : Stage} (h : SameStage root stage stage') {entries entries' : List TopologyEntry}
    (hsites : List.Forall₂ SameSite entries entries')
    (hback : ∀ e ∈ entries, '\\' ∉ e.dirPath.toList) :
    Together (Veiled P) (SameStage root)
      (migratePackages root defaultSources registry collaborators total index stage entries)
      (migratePackages root defaultSources registry' collaborators' total' index stage' entries') := by
  induction hsites generalizing index stage stage' with
  | nil => exact .pure h
  | cons he _ ih =>
    rw [migratePackages, migratePackages]
    exact .bind (.say _ _) fun _ _ _ =>
      .bind (together_migratePackage registry registry' collaborators collaborators' h he
        (hback _ List.mem_cons_self)) fun _ _ hstage =>
      ih (index + 1) hstage fun e hmem => hback e (List.mem_cons_of_mem _ hmem)

theorem together_planAt (settings : Settings) (hsources : settings.sources = defaultSources)
    (collaborators collaborators' : Option Collaborators) :
    Together (Veiled P) (fun _ _ => True) (planAt root settings collaborators)
      (planAt root settings collaborators') := by
  unfold planAt
  rw [hsources]
  refine .bind (together_openAt _) fun store store' hstore => .bind (.info _ _) fun _ _ _ => ?_
  have hload : Together (Veiled P)
      (fun records records' => records'.map (·.path) = records.map (·.path) ∧
        ∀ e ∈ Topology.build records, '\\' ∉ e.dirPath.toList)
      (Session.look fun disk => ManifestRecord.load disk root)
      (Session.look fun disk => ManifestRecord.load disk root) := by
    refine .look fun disk disk' h => ?_
    have hpaths := h.load_eq root
    cases hr : ManifestRecord.load disk root with
    | error failure =>
      rw [hr] at hpaths
      cases hr' : ManifestRecord.load disk' root with
      | error failure' => exact .error _ _
      | ok records' => rw [hr'] at hpaths; cases hpaths
    | ok records =>
      rw [hr] at hpaths
      cases hr' : ManifestRecord.load disk' root with
      | error failure' => rw [hr'] at hpaths; cases hpaths
      | ok records' =>
        rw [hr'] at hpaths
        exact .ok ⟨Except.ok.inj hpaths, fun e he => Topology.no_backslash_dirPath hr he⟩
  refine .bind hload fun records records' ⟨hpaths, hback⟩ => ?_
  have hsites := Topology.sameSite_build hpaths
  have hlive := Topology.map_of_sameSite (fun _ _ he => he.key_eq) hsites
  refine .bind (.say _ _) fun _ _ _ => .bind (.say _ _) fun _ _ _ => .bind (.say _ _) fun _ _ _ =>
    .bind (.say _ _) fun _ _ _ => ?_
  rw [hlive]
  refine .bind (together_dropStale hstore _) fun _ _ hstore => .bind (.info _ _) fun _ _ _ =>
    .bind (together_migratePackages _ _ _ _ _ _ 0 ?_ hsites hback) fun _ _ _ =>
      .bind (.info _ _) fun _ _ _ => .pure trivial
  exact hstore

theorem together_plan (settings : Settings) (hsources : settings.sources = defaultSources)
    (collaborators collaborators' : Option Collaborators) :
    Together (Veiled P) (fun _ _ => True) (plan settings collaborators)
      (plan settings collaborators') := by
  have hfind : Together (Veiled P) Eq (Session.look settings.findRoot)
      (Session.look settings.findRoot) :=
    .look fun disk disk' h => by
      rw [h.findRoot_eq]
      exact .refl _
  have hroot : Together (Veiled P) (fun made made' => made' = made ∧ made.sources = defaultSources)
      settings.withRoot settings.withRoot :=
    .bind hfind fun root root' he => .bind (.info _ _) fun _ _ _ => .pure ⟨he ▸ rfl, hsources⟩
  refine .bind (.info _ _) fun _ _ _ => .bind hroot fun made made' hmade => ?_
  obtain ⟨rfl, hsources'⟩ := hmade
  refine .bind (.get (.refl _)) fun root root' he => ?_
  obtain rfl := he
  exact together_planAt made' hsources' collaborators collaborators'

/-- **What is in manifests makes no difference to a plan.** Two disks differ in manifests at the
places `P`, where no symbolic link leads (`Secluded`), and are migrated with the same settings and
the default sources: the same manifests are found, both migrations fail or both come to a report,
and the configurations that they leave have the same bytes. -/
theorem plan_of_other_manifests (settings : Settings) (hsources : settings.sources = defaultSources)
    (collaborators collaborators' : Option Collaborators) {disk disk' : Disk} (hlegal : disk.Legal)
    (halike : Disk.AlikeBut P disk disk') (hP : Secluded disk.root Manifest.fileName P) :
    (∀ root, (ManifestRecord.load disk' root).map (·.map (·.path)) =
      (ManifestRecord.load disk root).map (·.map (·.path))) ∧
    settings.findRoot disk' = settings.findRoot disk ∧
    (plan settings collaborators' { disk := disk' }).1.isOk =
      (plan settings collaborators { disk }).1.isOk ∧
    Disk.AlikeBut P (plan settings collaborators { disk }).2.disk
      (plan settings collaborators' { disk := disk' }).2.disk ∧
    ∀ root, (plan settings collaborators' { disk := disk' }).2.disk.readBytes
        (Path.join root fileName) =
      (plan settings collaborators { disk }).2.disk.readBytes (Path.join root fileName) := by
  have h := Veiled.of_legal hlegal halike hP
  obtain ⟨hagree, hleft⟩ :=
    together_plan settings hsources collaborators collaborators' { disk } { disk := disk' } h
  exact ⟨h.load_eq, h.findRoot_eq settings, hagree.isOk, hleft.alike,
    fun root => hleft.alike.readBytes (hleft.locate_config_ne root)⟩

/-- A repository with a package inside another one. -/
def pairRepository : Disk :=
  ⟨.dir [("a", .dir [("package.json", .file "\x7b\x7d".toUTF8), ("x.js", .file .empty)]),
    ("package.json", .file "\x7b\x7d".toUTF8)], []⟩

/-- The `plan` is the same when the outer manifest is no text at all. -/
theorem plan_of_other_manifests_not_utf8 : ∃ disk', Disk.Alike ["package.json"] pairRepository disk' ∧
    disk'.read "/package.json" = .error .notUtf8 ∧
    (plan { root := some "/" } none { disk := pairRepository }).1.isOk = true ∧
    (plan { root := some "/" } none { disk := disk' }).1.isOk = true ∧
    (plan { root := some "/" } none { disk := disk' }).2.disk.readBytes "/flow-ts-config.json" =
      (plan { root := some "/" } none { disk := pairRepository }).2.disk.readBytes
        "/flow-ts-config.json" := by
  have hlegal : pairRepository.Legal := by decide +kernel
  have hnone : pairRepository.root.Throughout NoLinks := by decide +kernel
  have hfile : pairRepository.root.kindAt ([] ++ [Manifest.fileName]) = some .file := by
    decide +kernel
  have halike := Disk.alike_withFile hlegal.wellFormed hfile ⟨#[255]⟩
  have hok : (plan { root := some "/" } none { disk := pairRepository }).1.isOk = true := by
    decide +kernel
  obtain ⟨-, -, hsame, -, hbytes⟩ := plan_of_other_manifests { root := some "/" } rfl none none hlegal
    halike ((NoLinkTo.of_throughout hnone _).secluded hfile)
  have hpath : Path.join "/" fileName = "/flow-ts-config.json" := by decide
  exact ⟨_, halike, by decide +kernel, hok, hsame.trans hok, hpath ▸ hbytes "/"⟩

/-- A repository whose ignore file is a link to a manifest. -/
def ignoringRepository : Disk :=
  ⟨.dir [(".gitignore", .link "package.json"), ("package.json", .file "\x7b\x7d".toUTF8),
    ("sub", .dir [("package.json", .file "\x7b\x7d".toUTF8)])], []⟩

/-- **Links to manifests make a difference**: a manifest that breaks off is no list of ignore rules.
-/
theorem not_plan_of_other_manifests_of_links : ¬∀ (settings : Settings) (P : List String → Prop)
    (disk disk' : Disk), settings.sources = defaultSources → disk.Legal →
    (∀ c, P c → ∃ here, c = here ++ [Manifest.fileName]) → Disk.AlikeBut P disk disk' →
    (plan settings none { disk := disk' }).1.isOk = (plan settings none { disk }).1.isOk := by
  intro h
  have hlegal : ignoringRepository.Legal := by decide +kernel
  have hfile : ignoringRepository.root.kindAt ([] ++ [Manifest.fileName]) = some .file := by
    decide +kernel
  have halike := Disk.alike_withFile hlegal.wellFormed hfile "\x7b".toUTF8
  have hok : (plan { root := some "/" } none { disk := ignoringRepository }).1.isOk = true := by
    decide +kernel
  have hfails : (plan { root := some "/" } none
      { disk := ignoringRepository.withFile ["package.json"] "\x7b".toUTF8 }).1.isOk = false := by
    decide +kernel
  have hsame := h { root := some "/" } (· = ["package.json"]) ignoringRepository _ rfl hlegal
    (fun c hc => ⟨[], hc⟩) halike
  exact absurd (hfails.symm.trans (hsame.trans hok)) (by decide)

end Migration

end FlowMigration
