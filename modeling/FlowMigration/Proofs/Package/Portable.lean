import FlowMigration.Proofs.Ignore.Behind
import FlowMigration.Proofs.Package.Denotation

/-!
# One glob for all packages

The glob for sources stands by itself at the root of a repository and behind the directory of every
other package. A glob without a slash is then about files at any depth in the one place, and about
those right in the directory in the other; all others mean the same in both.

* `OwnPlace`: the directories whose files a package does not leave out.
* `sources_alike`: what the package at the root takes in, a nested package takes in below its own
  directory.
* `not_sources_alike`: where it does not.
-/

namespace FlowMigration.PackageScope

open Glob
open FlowMigration.Topology (Encloses)

/-- The directory `dirs` lies neither beneath dependencies nor in a package inside `e`. -/
structure OwnPlace (records : List ManifestRecord) (e : TopologyEntry) (dirs : List String) :
    Prop where
  installed : Manifest.dependencyDir ∉ dirs
  own : ∀ g ∈ Topology.build records, Encloses e.parts g.parts → ¬g.parts <+: dirs

instance (records : List ManifestRecord) (e : TopologyEntry) (dirs : List String) :
    Decidable (OwnPlace records e dirs) :=
  decidable_of_iff (Manifest.dependencyDir ∉ dirs ∧
      ∀ g ∈ Topology.build records, Encloses e.parts g.parts → ¬g.parts <+: dirs)
    ⟨fun ⟨h₁, h₂⟩ => ⟨h₁, h₂⟩, fun ⟨h₁, h₂⟩ => ⟨h₁, h₂⟩⟩

section
variable {records : List ManifestRecord}
  (hliteral : ∀ g ∈ Topology.build records, LiteralNames g.parts)
include hliteral

/-- In its `OwnPlace` a package takes in what the rule `first` for its sources is about. -/
theorem takesIn_iff_of_ownPlace {e : TopologyEntry} (he : e ∈ Topology.build records)
    {first : Option IgnoreRule} (hfirst : ∀ rule ∈ first, rule.negated = false) {root : String}
    (hroot : root ≠ "") {dirs : List String} {file : String}
    (hnames : ∀ n ∈ dirs ++ [file], Path.IsName n) (hplace : OwnPlace records e dirs) :
    takesIn (first.toList ++ dependencyRule :: e.excludes.map excludeRule) root
        (Path.joinAll root (dirs ++ [file])) =
      first.any (·.applies (Path.ofSegments (dirs ++ [file])) false) := by
  have hexcludes := literal_excludes he fun g hg _ => hliteral g hg
  rw [Bool.eq_iff_iff, takesIn_iff_of_first hexcludes hfirst hroot (by simp) hnames,
    List.dropLast_concat]
  refine and_iff_left ⟨hplace.installed, fun x hx => ?_⟩
  obtain ⟨hinside, g, hg, rfl⟩ := Topology.exists_of_mem_excludes he hx
  exact hplace.own g hg hinside

/-- **A glob for sources means the same** in the package `r` at the root and in a nested one, `e`,
if it does not begin with the mark of a rule (`IgnoreRule.Bare`), for all files if it goes through a
directory (`IgnoreRule.Everywhere`) and otherwise for those right in the directory of the package.
Both take in what the `glob` by itself is about. -/
theorem sources_alike {r e : TopologyEntry} (hr : r ∈ Topology.build records)
    (he : e ∈ Topology.build records) (hroot : r.parts = []) (hnested : e.parts ≠ [])
    (hmark : Unmarked e.parts) {glob : String} (hbare : IgnoreRule.Bare glob.toList)
    {first : Option IgnoreRule} (hglob : IgnoreRule.parse false glob = .ok first) :
    ∃ rootRules rules, (ofEntry r glob).rules = .ok rootRules ∧ (ofEntry e glob).rules = .ok rules ∧
      ∀ root dirs file, root ≠ "" → (∀ n ∈ dirs ++ [file], Path.IsName n) →
        (IgnoreRule.Everywhere glob.toList ∨ dirs = []) →
        OwnPlace records r dirs → OwnPlace records e (e.parts ++ dirs) →
          takesIn rootRules root (Path.joinAll root (dirs ++ [file])) =
              first.any (·.applies (Path.ofSegments (dirs ++ [file])) false) ∧
            takesIn rules root (Path.joinAll root (e.parts ++ dirs ++ [file])) =
              takesIn rootRules root (Path.joinAll root (dirs ++ [file])) := by
  have hparts := hliteral e he
  obtain ⟨c, rest, hcs, hslash, hback, hmarks⟩ := hparts.head_ofSegments hnested
  obtain ⟨hbang, hhash⟩ := hmarks hmark
  obtain ⟨first', hglob', hfirst, hfirst', hsame⟩ := IgnoreRule.exists_parse_behind
    hparts.literal_ofSegments ⟨c, rest, hcs, hbang, hhash, hslash, hback⟩ hbare hglob
  have hsources : (ofEntry r glob).sources = glob := by simp [ofEntry, TopologyEntry.isRoot, hroot]
  have hsources' : (ofEntry e glob).sources = Path.ofSegments e.parts ++ "/" ++ glob := by
    simp [ofEntry, TopologyEntry.isRoot, TopologyEntry.dirPath, hnested]
  have hexcludes : ∀ g ∈ Topology.build records, ∀ x ∈ g.excludes, LiteralNames x ∧ x ≠ [] :=
    fun g hg => literal_excludes hg fun g' hg' _ => hliteral g' hg'
  refine ⟨_, _, rules_of_parse (hexcludes r hr) (hsources ▸ hglob),
    rules_of_parse (hexcludes e he) (hsources' ▸ hglob'), ?_⟩
  intro root dirs file hne hnames hcases hplace hplace'
  have hnames' : ∀ n ∈ e.parts ++ dirs ++ [file], Path.IsName n := by
    intro n hn
    rw [List.append_assoc] at hn
    exact (List.mem_append.1 hn).elim (hparts.names n) (hnames n)
  have hpath : Path.ofSegments (e.parts ++ dirs ++ [file]) =
      Path.ofSegments e.parts ++ "/" ++ Path.ofSegments (dirs ++ [file]) := by
    rw [List.append_assoc, Path.ofSegments_append hnested (by simp)]
  have htakes := takesIn_iff_of_ownPlace hliteral hr hfirst hne hnames hplace
  have htakes' := takesIn_iff_of_ownPlace hliteral he hfirst' hne hnames' hplace'
  refine ⟨htakes, ?_⟩
  rw [htakes', htakes, hpath]
  refine hsame _ (by simp) (fun n hn => (hnames n hn).no_slash) (hcases.imp_right ?_)
  rintro rfl
  rfl

end

/-- A repository with a nested package. -/
def twoPackages : Disk :=
  ⟨.dir [("d", .dir [("package.json", .file "\x7b\x7d".toUTF8)]),
    ("package.json", .file "\x7b\x7d".toUTF8)], []⟩

/-- Both packages take in the script below their own directory. -/
theorem sources_alike_twoPackages :
    ∃ records, ManifestRecord.load twoPackages "/" = .ok records ∧
      ∃ r ∈ Topology.build records, ∃ e ∈ Topology.build records, r.parts = [] ∧ e.parts = ["d"] ∧
        ∃ rootRules rules, (ofEntry r "src/**/*.js").rules = .ok rootRules ∧
          (ofEntry e "src/**/*.js").rules = .ok rules ∧
            takesIn rules "/" (Path.joinAll "/" ["d", "src", "x.js"]) = true ∧
              takesIn rootRules "/" (Path.joinAll "/" ["src", "x.js"]) = true := by
  have hpackages : (ManifestRecord.load twoPackages "/").toOption.map (fun records =>
      (Topology.build records).map (·.parts)) = some [["d"], []] := by decide +kernel
  obtain ⟨records, hload, hparts⟩ := map_toOption_eq_some_iff.1 hpackages
  have hall : ∀ {p : List String → Prop}, (∀ parts ∈ [["d"], []], p parts) →
      ∀ g ∈ Topology.build records, p g.parts := fun h g hg =>
    h g.parts (hparts ▸ List.mem_map_of_mem hg)
  have hfind : ∀ parts ∈ [["d"], []], ∃ g ∈ Topology.build records, g.parts = parts :=
    fun parts hmem => List.mem_map.1 (hparts.symm ▸ hmem)
  obtain ⟨e, he, hnested⟩ := hfind ["d"] (by simp)
  obtain ⟨r, hr, hroot⟩ := hfind [] (by simp)
  have hrule : (IgnoreRule.parse false "src/**/*.js").toOption.any (fun first =>
      first.any (·.applies (Path.ofSegments ["src", "x.js"]) false)) = true := by decide +kernel
  obtain ⟨first, hglob, hrule⟩ := any_toOption_iff.1 hrule
  obtain ⟨rootRules, rules, hrules, hrules', hsame⟩ := sources_alike (hall (by decide +kernel))
    hr he hroot (by simp [hnested]) (hnested ▸ by decide) (by decide +kernel) hglob
  have hplace : OwnPlace records r ["src"] := by
    refine ⟨by decide, ?_⟩
    rw [hroot]
    exact hall (by decide : ∀ parts ∈ [["d"], []], Encloses [] parts → ¬parts <+: ["src"])
  have hplace' : OwnPlace records e (e.parts ++ ["src"]) := by
    rw [hnested]
    refine ⟨by decide, ?_⟩
    rw [hnested]
    exact hall (by decide :
      ∀ parts ∈ [["d"], []], Encloses ["d"] parts → ¬parts <+: ["d", "src"])
  obtain ⟨htakes, htakes'⟩ := hsame "/" ["src"] "x.js" (by decide) (by decide +kernel)
    (.inl (by decide +kernel)) hplace hplace'
  replace htakes := htakes.trans hrule
  rw [hnested, htakes] at htakes'
  exact ⟨records, hload, r, hr, e, he, hroot, hnested, rootRules, rules, hrules, hrules', htakes',
    htakes⟩

/-! ## Packages that differ -/

/-- The package at the root of a repository and a nested one do not agree about the `file` at the
same place in them. -/
def Disagree (disk : Disk) (glob : String) (dirs : List String) (file : String) : Prop :=
  ∃ records, ManifestRecord.load disk "/" = .ok records ∧
    ∃ r ∈ Topology.build records, ∃ e ∈ Topology.build records,
      (r.parts = [] ∧ e.parts ≠ [] ∧ LiteralNames e.parts ∧ OwnPlace records r dirs ∧
        OwnPlace records e (e.parts ++ dirs)) ∧
      ∃ rootRules rules, (ofEntry r glob).rules = .ok rootRules ∧
        (ofEntry e glob).rules = .ok rules ∧
          takesIn rules "/" (Path.joinAll "/" (e.parts ++ dirs ++ [file])) ≠
            takesIn rootRules "/" (Path.joinAll "/" (dirs ++ [file]))

/-- Whether some packages do not agree about a `glob`, by trying all of them. -/
def disagree (disk : Disk) (glob : String) (dirs : List String) (file : String) : Bool :=
  (ManifestRecord.load disk "/").toOption.any fun records =>
    (Topology.build records).any fun r => (Topology.build records).any fun e =>
      decide (r.parts = [] ∧ e.parts ≠ [] ∧ LiteralNames e.parts ∧ OwnPlace records r dirs ∧
        OwnPlace records e (e.parts ++ dirs)) &&
      (ofEntry r glob).rules.toOption.any fun rootRules =>
        (ofEntry e glob).rules.toOption.any fun rules =>
          takesIn rules "/" (Path.joinAll "/" (e.parts ++ dirs ++ [file])) !=
            takesIn rootRules "/" (Path.joinAll "/" (dirs ++ [file]))

theorem disagree_iff {disk : Disk} {glob : String} {dirs : List String} {file : String} :
    disagree disk glob dirs file = true ↔ Disagree disk glob dirs file := by
  simp only [disagree, Disagree, any_toOption_iff, List.any_eq_true, Bool.and_eq_true,
    decide_eq_true_iff, bne_iff_ne, exists_and_left]

instance (disk : Disk) (glob : String) (dirs : List String) (file : String) :
    Decidable (Disagree disk glob dirs file) := decidable_of_iff _ disagree_iff

/-- A nested package in a directory that is named like a comment. -/
def packageCommented : Disk :=
  ⟨.dir [("#d", .dir [("package.json", .file "\x7b\x7d".toUTF8)]),
    ("package.json", .file "\x7b\x7d".toUTF8)], []⟩

/-- Two nested packages, one of them in a directory that is named with a star. -/
def packageStarred : Disk :=
  ⟨.dir [("a*", .dir [("package.json", .file "\x7b\x7d".toUTF8)]),
    ("d", .dir [("package.json", .file "\x7b\x7d".toUTF8)]),
    ("package.json", .file "\x7b\x7d".toUTF8)], []⟩

/-- **Where packages do not agree** about a glob: one without a slash stands for files at any depth
only at the root, marks of rules are read only there, and the mark of a comment in front of the
directory makes a comment of the rule. A star in the name of another package leaves out more at the
root than that package. -/
theorem not_sources_alike :
    Disagree twoPackages "*.js" ["sub"] "x.js" ∧ Disagree twoPackages "/x.js" [] "x.js" ∧
      Disagree twoPackages "!x.js" [] "!x.js" ∧ Disagree twoPackages "#x.js" [] "#x.js" ∧
      Disagree packageCommented "**/*.js" [] "x.js" ∧
      Disagree packageStarred "**/*.js" ["ab"] "x.js" := by
  refine ⟨?_, ?_, ?_, ?_, ?_, ?_⟩ <;> decide +kernel

end FlowMigration.PackageScope
