import FlowMigration.Config.Store
import FlowMigration.Proofs.Json.Sound

/-!
# A configuration is read back as it was saved

* `MigrationConfig.Keepable`: configurations whose foreign members can be read back.
* `MigrationConfig.ReadFrom`: what a configuration says about the members it was read from.
* `MigrationConfig.completedBy`: a configuration with the foreign members of defaults that it lacks.
* `mergedOver_completedBy`: this is what the value of a configuration stands for over these
  defaults.
* `parse_text_completedBy`, `parse_text`: so does its text; over fresh defaults it stands for the
  configuration itself.
* `keepable_of_parse`: what is read from a file without doubles is such a configuration.
-/

namespace FlowMigration

namespace Json

/-! ## Sorted objects -/

/-- The `sorted` form of an object is known by its members. -/
theorem exists_sorted_object (members : List (String × Json)) (hnd : (members.map (·.1)).Nodup) :
    ∃ sorted, (Json.object members).sorted = .object sorted ∧ Ascending sorted ∧
      ∀ k, findMember? k sorted = (findMember? k members).map Json.sorted := by
  refine ⟨_, rfl, ascending_foldl List.Pairwise.nil _, ?_⟩
  intro k
  have hkeys : (sortedMembers members).map (·.1) = members.map (·.1) := by
    rw [sortedMembers_eq_map, List.map_map]
    rfl
  rw [findMember?_foldl (hkeys ▸ hnd), sortedMembers_eq_map, findMember?_map]
  exact Option.or_none

theorem sorted_object {members : List (String × Json)} (h : Ascending members) :
    (Json.object members).sorted = .object (members.map fun m => (m.1, m.2.sorted)) := by
  have hasc : Ascending (members.map fun m => (m.1, m.2.sorted)) :=
    List.pairwise_map.2 h
  rw [sorted, sortedMembers_eq_map, ofMembers, foldl_insertMember_eq hasc]

theorem sortedItems_map_string (texts : List String) :
    sortedItems (texts.map Json.string) = texts.map Json.string := by
  induction texts with
  | nil => rfl
  | cons text rest ih =>
    have htext : (Json.string text).sorted = .string text := rfl
    rw [List.map_cons, sortedItems, ih, htext]

theorem asTextList_map_string (texts : List String) :
    asTextList (.array (texts.map Json.string)) = .ok texts := by
  induction texts with
  | nil => rfl
  | cons text rest ih =>
    have hrest : (rest.map Json.string).mapM asText = .ok rest := ih
    rw [asTextList, List.map_cons, List.mapM_cons, hrest]
    rfl

/-- A map is read back if its values are, by `read` from what `write` makes of them. -/
theorem asDict_object {α : Type} {read : Json → Except Mismatch α} {write : α → Json}
    (h : ∀ a, read (write a) = .ok a) (dict : Dict α) :
    asDict read (.object (dict.entries.map fun e => (e.1, write e.2))) = .ok dict := by
  have hread : ∀ entries : List (String × α),
      (entries.map fun e => (e.1, write e.2)).mapM
        (fun m => (read m.2).map fun value => (m.1, value)) = (.ok entries : Except Mismatch _) := by
    intro entries
    induction entries with
    | nil => rfl
    | cons e rest ih =>
      rw [List.map_cons, List.mapM_cons, ih, h]
      rfl
  rw [asDict, hread]
  exact congrArg Except.ok (Dict.ext_entries (Dict.entries_ofList dict.ascending))

theorem optionalMember_of_find {key : String} {members : List (String × Json)} {value : Json}
    (h : findMember? key members = some value) {α : Type} (read : Json → Except Mismatch α) :
    optionalMember key read members = (read value).map some := by
  rw [optionalMember, h]

end Json

/-! ## Packages -/

theorem CompilerOptions.ofJson_toJson (options : CompilerOptions) :
    ofJson options.toJson = .ok options := by
  obtain ⟨strict, allowJs, jsx⟩ := options
  cases allowJs <;> cases jsx <;> rfl

theorem CompilerOptions.ofJson_sorted (options : CompilerOptions) :
    ofJson options.toJson.sorted = .ok options := by
  obtain ⟨strict, allowJs, jsx⟩ := options
  obtain ⟨sorted, hsorted, -, hfind⟩ := Json.exists_sorted_object
    ([("strict", .bool strict)] ++ (allowJs.map fun b => ("allowJs", Json.bool b)).toList ++
      (jsx.map fun text => ("jsx", Json.string text)).toList)
    (by cases allowJs <;> cases jsx <;> simp)
  rw [toJson, hsorted, ofJson]
  unfold Json.optionalMember
  rw [hfind, hfind, hfind]
  cases allowJs <;> cases jsx <;> simp [findMember?, Json.sorted, Json.asOptional, Json.asBool,
    Json.asText, Except.map, bind, Except.bind]

theorem PackageConfig.ofJson_toJson (config : PackageConfig) : ofJson config.toJson = .ok config := by
  simp [toJson, ofJson, Json.optionalMember, findMember?, Json.asTextList_map_string, Json.asText,
    CompilerOptions.ofJson_toJson, Json.requireMember, Except.map, bind, Except.bind]

/-- **A package `config` is read back.** -/
theorem PackageConfig.ofJson_sorted (config : PackageConfig) :
    ofJson config.toJson.sorted = .ok config := by
  obtain ⟨sorted, hsorted, -, hfind⟩ := Json.exists_sorted_object
    [("sources", .string config.sources), ("ignores", .array (config.ignores.map .string)),
      ("compilerOptions", config.compilerOptions.toJson)] (by simp)
  have hignores : (Json.array (config.ignores.map .string)).sorted =
      .array (config.ignores.map .string) := by
    rw [Json.sorted, Json.sortedItems_map_string]
  have hsources : (Json.string config.sources).sorted = .string config.sources := rfl
  rw [toJson, hsorted, ofJson]
  unfold Json.optionalMember
  rw [hfind, hfind, hfind]
  simp [findMember?, hignores, hsources, Json.asTextList_map_string, Json.asText,
    CompilerOptions.ofJson_sorted, Json.requireMember, Except.map, bind, Except.bind]

/-- The packages of `config` as a value. -/
def MigrationConfig.packagesJson (config : MigrationConfig) : Json :=
  .object (config.packages.entries.map fun e => (e.1, e.2.toJson))

theorem MigrationConfig.asDict_packagesJson (config : MigrationConfig) :
    Json.asDict PackageConfig.ofJson config.packagesJson.sorted = .ok config.packages := by
  have hasc : Ascending (config.packages.entries.map fun e => (e.1, e.2.toJson)) :=
    List.pairwise_map.2 config.packages.ascending
  have hread : ∀ package : PackageConfig,
      PackageConfig.ofJson ((fun p : PackageConfig => p.toJson.sorted) package) = .ok package :=
    PackageConfig.ofJson_sorted
  rw [packagesJson, Json.sorted_object hasc, List.map_map]
  exact Json.asDict_object hread config.packages

/-! ## Whole configurations -/

namespace MigrationConfig

/-- No foreign member has one of the `knownKeys`. -/
def OnlyForeign (config : MigrationConfig) : Prop :=
  ∀ key ∈ config.other.keys, key ∉ knownKeys

/-- The foreign members of `config` can be read back. -/
structure Keepable (config : MigrationConfig) : Prop where
  foreign : ∀ e ∈ config.other.entries, e.1 ∉ knownKeys
  fits : ∀ e ∈ config.other.entries, e.2.Fits (Json.maxDepth - 1)
  canonical : ∀ e ∈ config.other.entries, e.2.Canonical
  whole : ∀ e ∈ config.other.entries, e.2.Whole

variable {config : MigrationConfig}

theorem Keepable.onlyForeign (h : config.Keepable) : config.OnlyForeign := by
  intro key hkey
  obtain ⟨e, he, rfl⟩ := List.mem_map.1 hkey
  exact h.foreign e he

theorem OnlyForeign.nodup (h : config.OnlyForeign) : (config.members.map (·.1)).Nodup := by
  have hknown : (knownKeys).Nodup := by decide
  have hkeys : config.members.map (·.1) = knownKeys ++ config.other.entries.map (·.1) := by
    rw [members, List.map_append]
    rfl
  rw [hkeys]
  refine List.nodup_append.2 ⟨hknown, config.other.ascending.nodup, ?_⟩
  intro a ha b hb hab
  exact h b hb (hab ▸ ha)

theorem fits_compilerOptions (options : CompilerOptions) {depth : Nat} (h : 2 ≤ depth) :
    options.toJson.Fits depth ∧ options.toJson.Whole := by
  obtain ⟨strict, allowJs, jsx⟩ := options
  cases allowJs <;> cases jsx <;>
    simp [CompilerOptions.toJson, Json.Fits, Json.FitsMembers, Json.FitsMember, Json.Whole,
      Json.WholeMembers, Json.WholeMember, h]

theorem fits_texts (texts : List String) (depth : Nat) :
    Json.FitsItems depth (texts.map .string) ∧ Json.WholeItems (texts.map .string) := by
  induction texts with
  | nil => exact ⟨trivial, trivial⟩
  | cons text rest ih => exact ⟨⟨trivial, ih.1⟩, trivial, ih.2⟩

theorem fits_package (package : PackageConfig) {depth : Nat} (h : 3 ≤ depth) :
    package.toJson.Fits depth ∧ package.toJson.Whole := by
  obtain ⟨hoptions, hoptions'⟩ := fits_compilerOptions package.compilerOptions
    (show 2 ≤ depth - 1 by omega)
  obtain ⟨htexts, htexts'⟩ := fits_texts package.ignores (depth - 1 - 1)
  exact ⟨⟨by omega, trivial, ⟨by omega, htexts⟩, hoptions, trivial⟩,
    trivial, htexts', hoptions', trivial⟩

/-- **The value of a configuration** that is `Keepable` can be written and read back. -/
theorem Keepable.fits_toJson (h : config.Keepable) :
    config.toJson.Fits Json.maxDepth ∧ config.toJson.Whole := by
  have hpackages : config.packagesJson.Fits (Json.maxDepth - 1) ∧ config.packagesJson.Whole := by
    refine ⟨⟨by decide, Json.fitsMembers_iff.2 fun m hm => ?_⟩,
      Json.wholeMembers_iff.2 fun m hm => ?_⟩
    · obtain ⟨e, -, rfl⟩ := List.mem_map.1 hm
      exact (fits_package e.2 (by decide)).1
    · obtain ⟨e, -, rfl⟩ := List.mem_map.1 hm
      exact (fits_package e.2 (Nat.le_refl 3)).2
  have hcases : ∀ m ∈ config.members,
      m.2.Fits (Json.maxDepth - 1) ∧ m.2.Whole := by
    intro m hm
    rcases List.mem_append.1 hm with hm | hm
    · simp only [List.mem_cons, List.not_mem_nil, or_false] at hm
      rcases hm with rfl | rfl | rfl | rfl
      · exact ⟨trivial, trivial⟩
      · exact ⟨trivial, trivial⟩
      · exact ⟨trivial, trivial⟩
      · exact hpackages
    · exact ⟨h.fits m hm, h.whole m hm⟩
  exact ⟨⟨by decide, Json.fitsMembers_iff.2 fun m hm => (hcases m hm).1⟩,
    Json.wholeMembers_iff.2 fun m hm => (hcases m hm).2⟩

theorem keys_fresh (prettier recast : Bool) :
    (fresh prettier recast).members.map (·.1) = knownKeys := rfl

theorem findMember?_fresh {prettier recast : Bool} {k : String} (h : k ∉ knownKeys) :
    findMember? k (fresh prettier recast).members = none := by
  refine findMember?_eq_none ?_
  rintro m hm rfl
  exact h (keys_fresh prettier recast ▸ List.mem_map_of_mem hm)

/-! ## Reading the members -/

/-- What `config` says about the `members` that it was read from. -/
structure ReadFrom (members : Dict Json) (config : MigrationConfig) : Prop where
  packages : ∃ packages, Json.optionalMember "packages" (Json.asDict PackageConfig.ofJson)
    members.entries = .ok packages ∧ packages.getD {} = config.packages
  prettier : Json.optionalMember "prettier" Json.asBool members.entries = .ok (some config.prettier)
  recast : Json.optionalMember "recast" Json.asBool members.entries = .ok (some config.recast)
  version : Json.optionalMember "version" Json.asText members.entries = .ok (some config.version)
  other : (members.filter fun key => !knownKeys.contains key) = config.other

theorem requireMember_eq_ok {α : Type} {key : String} {value? : Option α} {value : α}
    (h : Json.requireMember key value? = .ok value) : value? = some value := by
  cases value? with
  | none => cases h
  | some found => rw [Except.ok.inj h]

theorem ofMembers_eq_ok {members : Dict Json} :
    ofMembers members = .ok config ↔ ReadFrom members config := by
  constructor
  · intro h
    obtain ⟨packages, hpackages, h⟩ := bind_eq_ok h
    obtain ⟨prettier, hprettier, h⟩ := bind_eq_ok h
    obtain ⟨recast, hrecast, h⟩ := bind_eq_ok h
    obtain ⟨version, hversion, h⟩ := bind_eq_ok h
    obtain ⟨v, hv, h⟩ := bind_eq_ok h
    obtain ⟨p, hp, h⟩ := bind_eq_ok h
    obtain ⟨r, hr, h⟩ := bind_eq_ok h
    cases h
    rw [requireMember_eq_ok hv] at hversion
    rw [requireMember_eq_ok hp] at hprettier
    rw [requireMember_eq_ok hr] at hrecast
    exact ⟨⟨packages, hpackages, rfl⟩, hprettier, hrecast, hversion, rfl⟩
  · rintro ⟨⟨packages, hpackages, hdefault⟩, hprettier, hrecast, hversion, hother⟩
    rw [ofMembers, hpackages, hprettier, hrecast, hversion]
    show Except.ok (MigrationConfig.mk config.version config.prettier config.recast
      (packages.getD {}) (members.filter fun key => !knownKeys.contains key)) = .ok config
    rw [hdefault, hother]

/-- The members that the `existing` ones of a file and the `defaults` come to. -/
def mergedMembers (defaults : MigrationConfig) (existing : List (String × Json)) : Dict Json :=
  (Dict.ofList defaults.members).extend (Dict.ofList existing)

theorem mergedOver_eq_ok_iff {defaults : MigrationConfig} {existing : List (String × Json)} :
    defaults.mergedOver (.object existing) = .ok config ↔
      ReadFrom (defaults.mergedMembers existing) config := by
  rw [← ofMembers_eq_ok, mergedOver, mergedMembers]
  cases ofMembers ((Dict.ofList defaults.members).extend (Dict.ofList existing)) with
  | error mismatch => simp [Except.mapError]
  | ok found => simp [Except.mapError]

theorem get?_mergedMembers {existing : List (String × Json)} (h : Ascending existing)
    (defaults : MigrationConfig) (k : String) :
    (defaults.mergedMembers existing).get? k =
      (findMember? k existing).or ((Dict.ofList defaults.members).get? k) := by
  rw [mergedMembers, Dict.get?_extend, Dict.get?_ofList h.nodup]

theorem get?_ofList_members (defaults : MigrationConfig) {k : String} (h : k ∉ knownKeys) :
    (Dict.ofList defaults.members).get? k = defaults.other.get? k := by
  have hfront : ∀ own : List (String × Json), own.map (·.1) = knownKeys →
      (Dict.ofList (own ++ defaults.other.entries)).get? k = defaults.other.get? k := by
    intro own hown
    have hextend : Dict.ofList (own ++ defaults.other.entries) =
        (Dict.ofList own).extend defaults.other := List.foldl_append
    have hnone : findMember? k own = none := by
      refine findMember?_eq_none ?_
      rintro m hm rfl
      exact h (hown ▸ List.mem_map_of_mem hm)
    have hnodup : knownKeys.Nodup := by decide
    rw [hextend, Dict.get?_extend, Dict.get?_ofList (hown ▸ hnodup), hnone, Option.or_none]
  exact hfront _ rfl

/-- The configuration with the foreign members of the `defaults` that it lacks. -/
def completedBy (config defaults : MigrationConfig) : MigrationConfig :=
  { config with
    other := (defaults.other.filter fun key => !knownKeys.contains key).extend config.other }

/-- Defaults that have no further foreign members add nothing: `completedBy` them the configuration
is the same. -/
theorem completedBy_eq {defaults : MigrationConfig}
    (h : ∀ key ∈ defaults.other.keys, key ∈ knownKeys ∨ key ∈ config.other.keys) :
    config.completedBy defaults = config := by
  have hother : (defaults.other.filter fun key => !knownKeys.contains key).extend config.other =
      config.other := by
    refine Dict.ext_get? fun k => ?_
    rw [Dict.get?_extend, Dict.get?_filter]
    cases hk : config.other.get? k with
    | some value => rfl
    | none =>
      have hlacks : k ∉ config.other.keys := by simp [Dict.mem_keys, hk]
      by_cases hdefault : k ∈ defaults.other.keys
      · rw [if_neg (by simpa using (h k hdefault).resolve_right hlacks)]
        rfl
      · have hnone : defaults.other.get? k = none := by simpa [Dict.mem_keys] using hdefault
        rw [hnone, ite_self]
        rfl
  rw [completedBy, hother]

/-- **A configuration is read back** over any `defaults`, with the foreign members that it lacks. -/
theorem mergedOver_completedBy (h : config.OnlyForeign)
    (hcanonical : ∀ e ∈ config.other.entries, e.2.Canonical) (defaults : MigrationConfig) :
    defaults.mergedOver config.toJson.sorted = .ok (config.completedBy defaults) := by
  obtain ⟨existing, hexisting, hasc, hfind⟩ := Json.exists_sorted_object config.members h.nodup
  have hmerged := get?_mergedMembers hasc defaults
  simp only [hfind] at hmerged
  rw [toJson, hexisting, mergedOver_eq_ok_iff]
  have hread : ∀ k value, findMember? k config.members = some value →
      ∀ {α : Type} (read : Json → Except Mismatch α),
        Json.optionalMember k read (defaults.mergedMembers existing).entries =
          (read value.sorted).map some := by
    intro k value hk α read
    have hget := hmerged k
    rw [hk, Option.map_some, Option.some_or] at hget
    exact Json.optionalMember_of_find hget read
  refine ⟨⟨some config.packages, ?_, rfl⟩, ?_, ?_, ?_, Dict.ext_get? fun k => ?_⟩
  · rw [hread "packages" config.packagesJson rfl, asDict_packagesJson]
    rfl
  · exact hread "prettier" (.bool config.prettier) rfl _
  · exact hread "recast" (.bool config.recast) rfl _
  · exact hread "version" (.string config.version) rfl _
  · have hover : (config.completedBy defaults).other.get? k = (config.other.get? k).or
        (if !knownKeys.contains k then defaults.other.get? k else none) := by
      rw [completedBy, Dict.get?_extend, Dict.get?_filter]
    rw [Dict.get?_filter, hover]
    by_cases hk : k ∈ knownKeys
    · have hnone : config.other.get? k = none := by
        refine findMember?_eq_none ?_
        rintro e he rfl
        exact h e.1 (List.mem_map_of_mem he) hk
      simp [hk, hnone]
    · have hfront : findMember? k config.members = config.other.get? k := by
        rw [members, findMember?_append, findMember?_eq_none, Option.none_or]
        · rfl
        · rintro m hm rfl
          exact hk (List.mem_map_of_mem (f := (·.1)) hm)
      have hsorted : (config.other.get? k).map Json.sorted = config.other.get? k := by
        cases hg : config.other.get? k with
        | none => rfl
        | some value =>
          exact congrArg some (Json.sorted_of_canonical value (hcanonical _ (mem_of_findMember? hg)))
      have hforeign : (!knownKeys.contains k) = true := by simpa using hk
      rw [hmerged, hfront, hsorted, get?_ofList_members defaults hk, if_pos hforeign,
        if_pos hforeign]

/-! ## Fresh defaults -/

/-- The members that the `existing` ones of a file and `fresh` defaults come to. -/
def merged (prettier recast : Bool) (existing : List (String × Json)) : Dict Json :=
  (Dict.ofList (fresh prettier recast).members).extend (Dict.ofList existing)

theorem mergedOver_eq_ok {prettier recast : Bool} {existing : List (String × Json)} :
    (fresh prettier recast).mergedOver (.object existing) = .ok config ↔
      ReadFrom (merged prettier recast existing) config := mergedOver_eq_ok_iff

theorem get?_merged {existing : List (String × Json)} (h : Ascending existing)
    (prettier recast : Bool) (k : String) :
    (merged prettier recast existing).get? k =
      (findMember? k existing).or (findMember? k (fresh prettier recast).members) := by
  have hknown : knownKeys.Nodup := by decide
  have hfresh : (Dict.ofList (fresh prettier recast).members).get? k =
      findMember? k (fresh prettier recast).members :=
    Dict.get?_ofList (keys_fresh prettier recast ▸ hknown) k
  rw [← hfresh]
  exact get?_mergedMembers h _ k

theorem completedBy_fresh (config : MigrationConfig) (prettier recast : Bool) :
    config.completedBy (fresh prettier recast) = config :=
  completedBy_eq fun _ hkey => absurd hkey List.not_mem_nil

/-! ## Configurations that were read -/

/-- The foreign members of `config` are those of the file. -/
theorem other_of_mergedOver {existing : List (String × Json)} (hasc : Ascending existing)
    {prettier recast : Bool}
    (h : (fresh prettier recast).mergedOver (.object existing) = .ok config) (k : String) :
    config.other.get? k = if k ∈ knownKeys then none else findMember? k existing := by
  rw [← (mergedOver_eq_ok.1 h).other, Dict.get?_filter, get?_merged hasc prettier recast k]
  by_cases hk : k ∈ knownKeys
  · simp [hk]
  · simp [hk, findMember?_fresh hk]

end MigrationConfig

namespace ConfigStore

/-- **The text that `store` saves** reads as its configuration, with the foreign members of the
`defaults` that it lacks. -/
theorem parse_text_completedBy {store : ConfigStore} (h : store.config.Keepable)
    (defaults : MigrationConfig) :
    parse defaults store.text = .ok (store.config.completedBy defaults) := by
  obtain ⟨hfit, hwhole⟩ := h.fits_toJson
  rw [parse, text, Json.parse_pretty hfit hwhole]
  exact MigrationConfig.mergedOver_completedBy h.onlyForeign h.canonical defaults

theorem parse_text {store : ConfigStore} (h : store.config.Keepable) (prettier recast : Bool) :
    parse (.fresh prettier recast) store.text = .ok store.config := by
  rw [parse_text_completedBy h, MigrationConfig.completedBy_fresh]

/-- What `text` is read from: an object. -/
theorem exists_object_of_parse {prettier recast : Bool} {text : String} {config : MigrationConfig}
    (h : parse (.fresh prettier recast) text = .ok config) :
    ∃ existing, Json.parse text = .ok (.object existing) ∧
      (MigrationConfig.fresh prettier recast).mergedOver (.object existing) = .ok config := by
  unfold parse at h
  split at h
  · cases h
  · next value hvalue =>
    cases value with
    | object existing => exact ⟨existing, hvalue, h⟩
    | _ => cases h

theorem keepable_fresh (prettier recast : Bool) :
    (MigrationConfig.fresh prettier recast).Keepable := by
  refine ⟨?_, ?_, ?_, ?_⟩ <;> rintro e ⟨⟩

theorem keepable_of_other {config config' : MigrationConfig} (h : config.Keepable)
    (he : config'.other = config.other) : config'.Keepable := by
  refine ⟨?_, ?_, ?_, ?_⟩ <;> rw [he]
  exacts [h.foreign, h.fits, h.canonical, h.whole]

/-- The members of `text` whose keys are none of the `knownKeys`. -/
def foreignMembers (text : String) : List (String × Json) :=
  match Json.parse text with
  | .ok (.object existing) => existing.filter fun m => !MigrationConfig.knownKeys.contains m.1
  | _ => []

/-- The `foreignMembers` of `text` hold no double. -/
def WholeText (text : String) : Prop := ∀ m ∈ foreignMembers text, m.2.Whole

instance (text : String) : Decidable (WholeText text) :=
  inferInstanceAs (Decidable (∀ m ∈ foreignMembers text, m.2.Whole))

theorem mem_foreignMembers {text : String} {existing : List (String × Json)}
    (h : Json.parse text = .ok (.object existing)) {m : String × Json} (hm : m ∈ existing)
    (hk : m.1 ∉ MigrationConfig.knownKeys) : m ∈ foreignMembers text := by
  simp [foreignMembers, h, hm, hk]

/-- **What is read from a `WholeText`** can be written and read back. -/
theorem keepable_of_parse {prettier recast : Bool} {text : String} {config : MigrationConfig}
    (hwhole : WholeText text) (h : parse (.fresh prettier recast) text = .ok config) :
    config.Keepable := by
  obtain ⟨existing, hparse, hmerged⟩ := exists_object_of_parse h
  obtain ⟨⟨-, hfit⟩, hasc, hcan⟩ := Json.parse_sound hparse
  rw [Json.fitsMembers_iff] at hfit
  rw [Json.canonicalMembers_iff] at hcan
  have hmem : ∀ e ∈ config.other.entries, e.1 ∉ MigrationConfig.knownKeys ∧ e ∈ existing := by
    intro e he
    have hget := MigrationConfig.other_of_mergedOver hasc hmerged e.1
    have hsome : config.other.get? e.1 = some e.2 :=
      findMember?_of_mem config.other.ascending.nodup he
    rw [hsome] at hget
    by_cases hk : e.1 ∈ MigrationConfig.knownKeys
    · rw [if_pos hk] at hget
      cases hget
    · rw [if_neg hk] at hget
      exact ⟨hk, mem_of_findMember? hget.symm⟩
  exact ⟨fun e he => (hmem e he).1, fun e he => hfit e (hmem e he).2,
    fun e he => hcan e (hmem e he).2, fun e he =>
      hwhole e (mem_foreignMembers hparse (hmem e he).2 (hmem e he).1)⟩

end ConfigStore

end FlowMigration
