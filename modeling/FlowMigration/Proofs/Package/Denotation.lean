import FlowMigration.Proofs.Package.Matching
import FlowMigration.Proofs.Topology.Nesting

/-!
# What the globs of a package denote

The globs that stand for a package in the configuration are written with the names of directories,
and nothing in those names is escaped. They denote the scope of the package as long as every name
on the way to it, and to the packages inside it, reads as itself.

* `InScope`: the files of a package, by the directories that lead to them.
* `denotes_of_literal`: among literal names the globs of a package take in its files and no others.
* `not_denotes_of_active_names`: a star, an open bracket or the mark of a comment in a name, and
  they do not.
-/

namespace FlowMigration.PackageScope

open Glob
open FlowMigration.Topology (Encloses)

/-- The file `file` in `dirs` belongs to the package `e`. -/
structure InScope (records : List ManifestRecord) (e : TopologyEntry) (dirs : List String)
    (file : String) : Prop where
  below : e.parts <+: dirs
  source : IsSource file
  installed : Manifest.dependencyDir ∉ dirs
  /-- No package inside `e` has it. -/
  own : ∀ g ∈ Topology.build records, Encloses e.parts g.parts → ¬g.parts <+: dirs

/-- The globs of the package `e` can be read, and of the files below a root they take in those of
its scope. -/
def Denotes (records : List ManifestRecord) (e : TopologyEntry) : Prop :=
  ∃ rules, (ofEntry e defaultSources).rules = .ok rules ∧
    ∀ root dirs file, root ≠ "" → (∀ n ∈ dirs ++ [file], Path.IsName n) →
      (takesIn rules root (Path.joinAll root (dirs ++ [file])) = true ↔
        InScope records e dirs file)

section
variable {records : List ManifestRecord} {e : TopologyEntry} (he : e ∈ Topology.build records)
  (h : ∀ g ∈ Topology.build records, e.parts <+: g.parts → LiteralNames g.parts)
include he h

theorem literal_excludes : ∀ x ∈ e.excludes, LiteralNames x ∧ x ≠ [] := by
  intro x hx
  obtain ⟨⟨hpre, hother⟩, g, hg, rfl⟩ := Topology.exists_of_mem_excludes he hx
  refine ⟨h g hg hpre, fun hnil => hother ?_⟩
  rw [hnil] at hpre ⊢
  exact (List.prefix_nil.1 hpre).symm

/-- The `rules` of a package among literal names take in its scope. -/
theorem takesIn_iff_inScope (hmark : Unmarked e.parts) {rules : List IgnoreRule}
    (hrules : (ofEntry e defaultSources).rules = .ok rules) {root : String} (hroot : root ≠ "")
    {dirs : List String} {file : String} (hnames : ∀ n ∈ dirs ++ [file], Path.IsName n) :
    takesIn rules root (Path.joinAll root (dirs ++ [file])) = true ↔
      InScope records e dirs file := by
  rw [takesIn_iff (h e he List.prefix_rfl) hmark (literal_excludes he h) hrules hroot (by simp)
    hnames, List.dropLast_concat, List.getLast_concat]
  constructor
  · intro ⟨hbelow, hsource, hinstalled, hexcluded⟩
    refine ⟨hbelow, hsource, hinstalled, fun g hg hinside => ?_⟩
    exact hexcluded g.parts (Topology.mem_excludes he hg hinside)
  · intro hscope
    refine ⟨hscope.below, hscope.source, hscope.installed, fun x hx => ?_⟩
    obtain ⟨hinside, g, hg, rfl⟩ := Topology.exists_of_mem_excludes he hx
    exact hscope.own g hg hinside

end

/-! ## Main statement -/

/-- **The globs of a package denote its scope** (`Denotes`) if its own names and those of the
packages inside it are literal, and its first name does not begin with the mark of a rule
(`Unmarked`). -/
theorem denotes_of_literal {records : List ManifestRecord} {e : TopologyEntry}
    (he : e ∈ Topology.build records) (hmark : Unmarked e.parts)
    (h : ∀ g ∈ Topology.build records, e.parts <+: g.parts → LiteralNames g.parts) :
    Denotes records e := by
  have hrules := rules_ofEntry (h e he List.prefix_rfl) hmark (literal_excludes he h)
  exact ⟨_, hrules, fun root dirs file hroot hnames =>
    takesIn_iff_inScope he h hmark hrules hroot hnames⟩

instance (records : List ManifestRecord) (e : TopologyEntry) (dirs : List String) (file : String) :
    Decidable (InScope records e dirs file) :=
  decidable_of_iff (e.parts <+: dirs ∧ IsSource file ∧ Manifest.dependencyDir ∉ dirs ∧
      ∀ g ∈ Topology.build records, Encloses e.parts g.parts → ¬g.parts <+: dirs)
    ⟨fun ⟨h₁, h₂, h₃, h₄⟩ => ⟨h₁, h₂, h₃, h₄⟩, fun ⟨h₁, h₂, h₃, h₄⟩ => ⟨h₁, h₂, h₃, h₄⟩⟩

/-- A package in a directory whose name holds a bracket that closes nothing, and a comma. -/
def oddlyNamed : Disk :=
  ⟨.dir [("a],b", .dir [("package.json", .file "\x7b\x7d".toUTF8)]),
    ("package.json", .file "\x7b\x7d".toUTF8)], []⟩

/-- Both packages are denoted by their globs. -/
theorem denotes_of_literal_oddlyNamed : ∃ records, ManifestRecord.load oddlyNamed "/" = .ok records ∧
    (Topology.build records).map (·.parts) = [["a],b"], []] ∧
    ∀ e ∈ Topology.build records, Denotes records e := by
  have hpackages : (ManifestRecord.load oddlyNamed "/").toOption.map (fun records =>
      (Topology.build records).map (·.parts)) = some [["a],b"], []] := by decide +kernel
  obtain ⟨records, hload, hparts⟩ := map_toOption_eq_some_iff.1 hpackages
  have hnames : ∀ g ∈ Topology.build records, LiteralNames g.parts ∧ Unmarked g.parts := by
    intro g hg
    have hmem : g.parts ∈ (Topology.build records).map (·.parts) := List.mem_map_of_mem hg
    rw [hparts] at hmem
    have hall : ∀ parts ∈ [["a],b"], []], LiteralNames parts ∧ Unmarked parts := by decide +kernel
    exact hall g.parts hmem
  exact ⟨records, hload, hparts, fun e he =>
    denotes_of_literal he (hnames e he).2 fun g hg _ => (hnames g hg).1⟩

/-! ## Names that are read as something else -/

/-- A package whose globs do not decide about the `file` in `dirs` as its scope does. -/
def misread (disk : Disk) (dirs : List String) (file : String) : Bool :=
  (ManifestRecord.load disk "/").toOption.any fun records =>
    (Topology.build records).any fun e => decide (InScope records e dirs file) &&
      (ofEntry e defaultSources).rules.toOption.all fun rules =>
        !takesIn rules "/" (Path.joinAll "/" (dirs ++ [file]))

/-- Some package of the repository is `misread`: its globs do not denote it. -/
def Misreads (disk : Disk) : Prop :=
  ∃ records, ManifestRecord.load disk "/" = .ok records ∧
    ∃ e ∈ Topology.build records, ¬Denotes records e

theorem misreads_of_misread {disk : Disk} (dirs : List String) (file : String)
    (hnames : ∀ n ∈ dirs ++ [file], Path.IsName n) (h : misread disk dirs file = true) :
    Misreads disk := by
  simp only [misread, any_toOption_iff, List.any_eq_true, Bool.and_eq_true,
    decide_eq_true_eq] at h
  obtain ⟨records, hload, e, he, hscope, hout⟩ := h
  refine ⟨records, hload, e, he, fun ⟨rules, hrules, hdenotes⟩ => ?_⟩
  have htakes := (hdenotes "/" dirs file (by decide) hnames).2 hscope
  simp [hrules, htakes, Except.toOption] at hout

/-- A package in a directory that is named with a star. -/
def starred : Disk :=
  ⟨.dir [("a*", .dir [("package.json", .file "\x7b\x7d".toUTF8)]),
    ("ab", .dir [("x.js", .file .empty)]),
    ("package.json", .file "\x7b\x7d".toUTF8)], []⟩

/-- A package in a directory that is named with an open bracket. -/
def bracketed : Disk :=
  ⟨.dir [("a[", .dir [("package.json", .file "\x7b\x7d".toUTF8)]),
    ("package.json", .file "\x7b\x7d".toUTF8), ("x.js", .file .empty)], []⟩

/-- A package in a directory that is named like a comment. -/
def commented : Disk :=
  ⟨.dir [("#a", .dir [("package.json", .file "\x7b\x7d".toUTF8), ("x.js", .file .empty)])], []⟩

/-- **Active characters in names** are not escaped: what leaves out `a*` leaves out a file of `ab`,
the globs that name `a[` cannot be read, and `#a` makes a comment of the sources of its package. -/
theorem not_denotes_of_active_names : Misreads starred ∧ Misreads bracketed ∧ Misreads commented := by
  refine ⟨?_, ?_, ?_⟩
  · exact misreads_of_misread ["ab"] "x.js" (by decide) (by decide +kernel)
  · exact misreads_of_misread [] "x.js" (by decide) (by decide +kernel)
  · exact misreads_of_misread ["#a"] "x.js" (by decide) (by decide +kernel)

end FlowMigration.PackageScope
