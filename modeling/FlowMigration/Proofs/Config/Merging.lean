import FlowMigration.Proofs.Config.RoundTrip

/-!
# A configuration over defaults

The members of a file replace those of defaults, each of them as a whole.

* `mergedOver_object`: a member that has a meaning is read where it is there, and is the default
  otherwise; the other members are not looked at.
* `Merges`: what comes out, field by field (`mergedOver_eq_ok_iff_merges`).
* `Unreadable`: a member that cannot be read for what it means.
* `mergedOver_shallow`: when configurations are read and what they are then.
-/

namespace FlowMigration

/-- The value that a member stands for, or the `default` where there is none. -/
def Json.readOr {α : Type} (read : Json → Except Mismatch α) (default : α) :
    Option Json → Except Mismatch α
  | some value => read value
  | none => .ok default

theorem Json.exists_readOr {α : Type} {read : Json → Except Mismatch α} {member : Option Json}
    (h : ∀ value, member = some value → ∃ a, read value = .ok a) (default : α) :
    ∃ a, readOr read default member = .ok a := by
  cases member with
  | none => exact ⟨default, rfl⟩
  | some value => exact h value rfl

namespace MigrationConfig

variable {d r : MigrationConfig} {existing : List (String × Json)}

/-! ## One member -/

/-- **A member that has a meaning** is read where it is there; the `default` is read back. -/
theorem optionalMember_merged (hd : d.OnlyForeign) (hasc : Ascending existing) {key : String}
    {value : Json} {α : Type} {read : Json → Except Mismatch α} {default : α}
    (hvalue : findMember? key d.members = some value) (hread : read value = .ok default) :
    Json.optionalMember key read (d.mergedMembers existing).entries =
      (Json.readOr read default (findMember? key existing)).map some := by
  have hget : findMember? key (d.mergedMembers existing).entries =
      (findMember? key existing).or (some value) := by
    rw [← hvalue, ← Dict.get?_ofList hd.nodup]
    exact get?_mergedMembers hasc d key
  unfold Json.optionalMember
  rw [hget]
  cases findMember? key existing with
  | none => simp [Json.readOr, hread, Except.map]
  | some found => rfl

theorem optionalMember_packages (hd : d.OnlyForeign) (hasc : Ascending existing) :
    Json.optionalMember "packages" (Json.asDict PackageConfig.ofJson)
        (d.mergedMembers existing).entries =
      (Json.readOr (Json.asDict PackageConfig.ofJson) d.packages
        (findMember? "packages" existing)).map some :=
  optionalMember_merged hd hasc rfl (Json.asDict_object PackageConfig.ofJson_toJson d.packages)

theorem optionalMember_prettier (hd : d.OnlyForeign) (hasc : Ascending existing) :
    Json.optionalMember "prettier" Json.asBool (d.mergedMembers existing).entries =
      (Json.readOr Json.asBool d.prettier (findMember? "prettier" existing)).map some :=
  optionalMember_merged hd hasc rfl rfl

theorem optionalMember_recast (hd : d.OnlyForeign) (hasc : Ascending existing) :
    Json.optionalMember "recast" Json.asBool (d.mergedMembers existing).entries =
      (Json.readOr Json.asBool d.recast (findMember? "recast" existing)).map some :=
  optionalMember_merged hd hasc rfl rfl

theorem optionalMember_version (hd : d.OnlyForeign) (hasc : Ascending existing) :
    Json.optionalMember "version" Json.asText (d.mergedMembers existing).entries =
      (Json.readOr Json.asText d.version (findMember? "version" existing)).map some :=
  optionalMember_merged hd hasc rfl rfl

/-! ## All members -/

/-- The fields of `config` that have a meaning. -/
def fields (config : MigrationConfig) : String × Bool × Bool × Dict PackageConfig :=
  (config.version, config.prettier, config.recast, config.packages)

/-- The configuration with some fields and the members `other`, without a meaning. -/
def ofFields (other : Dict Json) : String × Bool × Bool × Dict PackageConfig → MigrationConfig
  | (version, prettier, recast, packages) => ⟨version, prettier, recast, packages, other⟩

/-- The members of `existing` that have a meaning, read one by one over the defaults `d`. -/
def readFields (d : MigrationConfig) (existing : List (String × Json)) :
    Except Mismatch (String × Bool × Bool × Dict PackageConfig) := do
  let packages ← Json.readOr (Json.asDict PackageConfig.ofJson) d.packages
    (findMember? "packages" existing)
  let prettier ← Json.readOr Json.asBool d.prettier (findMember? "prettier" existing)
  let recast ← Json.readOr Json.asBool d.recast (findMember? "recast" existing)
  let version ← Json.readOr Json.asText d.version (findMember? "version" existing)
  .ok (version, prettier, recast, packages)

/-- The members without a meaning, those of `existing` over those of the defaults `d`. -/
def mergedOther (d : MigrationConfig) (existing : List (String × Json)) : Dict Json :=
  (d.mergedMembers existing).filter fun key => !knownKeys.contains key

/-- **What is merged**: the members that have a meaning are read by `readFields`, and the others are
not looked at. -/
theorem mergedOver_object (hd : d.OnlyForeign) (hasc : Ascending existing) :
    d.mergedOver (.object existing) =
      ((d.readFields existing).map (ofFields (d.mergedOther existing))).mapError .mismatch := by
  show (ofMembers (d.mergedMembers existing)).mapError _ = _
  rw [ofMembers, optionalMember_packages hd hasc, optionalMember_prettier hd hasc,
    optionalMember_recast hd hasc, optionalMember_version hd hasc, readFields]
  cases Json.readOr (Json.asDict PackageConfig.ofJson) d.packages
    (findMember? "packages" existing) with
  | error mismatch => rfl
  | ok packages =>
    cases Json.readOr Json.asBool d.prettier (findMember? "prettier" existing) with
    | error mismatch => rfl
    | ok prettier =>
      cases Json.readOr Json.asBool d.recast (findMember? "recast" existing) with
      | error mismatch => rfl
      | ok recast =>
        cases Json.readOr Json.asText d.version (findMember? "version" existing) with
        | error mismatch => rfl
        | ok version => rfl

theorem get?_mergedOther (hasc : Ascending existing) (key : String) :
    (d.mergedOther existing).get? key =
      if key ∈ knownKeys then none else (findMember? key existing).or (d.other.get? key) := by
  rw [mergedOther, Dict.get?_filter, get?_mergedMembers hasc]
  by_cases hkey : key ∈ knownKeys
  · simp [hkey]
  · simp [hkey, get?_ofList_members d hkey]

/-- The configuration `r` has the members of `e`, and of the defaults `d` those that `e` lacks. -/
structure Merges (d : MigrationConfig) (e : Json) (r : MigrationConfig) : Prop where
  version : Json.readOr Json.asText d.version (e.member? "version") = .ok r.version
  prettier : Json.readOr Json.asBool d.prettier (e.member? "prettier") = .ok r.prettier
  recast : Json.readOr Json.asBool d.recast (e.member? "recast") = .ok r.recast
  packages : Json.readOr (Json.asDict PackageConfig.ofJson) d.packages (e.member? "packages") =
    .ok r.packages
  other : ∀ key, r.other.get? key =
    if key ∈ knownKeys then none else (e.member? key).or (d.other.get? key)

theorem onlyForeign_fresh (prettier recast : Bool) : (fresh prettier recast).OnlyForeign :=
  fun _ hkey => absurd hkey List.not_mem_nil

/-- **What a configuration over the defaults `d` is**, field by field. -/
theorem mergedOver_eq_ok_iff_merges (hd : d.OnlyForeign) (hasc : Ascending existing) :
    d.mergedOver (.object existing) = .ok r ↔ Merges d (.object existing) r := by
  rw [mergedOver_object hd hasc]
  constructor
  · intro h
    cases hread : d.readFields existing with
    | error mismatch =>
      rw [hread] at h
      cases h
    | ok found =>
      rw [hread] at h
      obtain rfl : ofFields (d.mergedOther existing) found = r := Except.ok.inj h
      obtain ⟨packages, hpackages, hread⟩ := bind_eq_ok hread
      obtain ⟨prettier, hprettier, hread⟩ := bind_eq_ok hread
      obtain ⟨recast, hrecast, hread⟩ := bind_eq_ok hread
      obtain ⟨version, hversion, hread⟩ := bind_eq_ok hread
      cases hread
      exact ⟨hversion, hprettier, hrecast, hpackages, get?_mergedOther hasc⟩
  · rintro ⟨hversion, hprettier, hrecast, hpackages, hother⟩
    simp only [Json.member?] at hversion hprettier hrecast hpackages hother
    have hsame : d.mergedOther existing = r.other :=
      Dict.ext_get? fun key => (get?_mergedOther hasc key).trans (hother key).symm
    rw [readFields, hversion, hprettier, hrecast, hpackages, hsame]
    rfl

/-! ## What cannot be read, and what does not count -/

/-- The value of a member that has a meaning cannot be read, on its own, for what it means. -/
inductive Unreadable : String → Json → Prop
  | version {value : Json} : (∀ text, value.asText ≠ .ok text) → Unreadable "version" value
  | prettier {value : Json} : (∀ b, value.asBool ≠ .ok b) → Unreadable "prettier" value
  | recast {value : Json} : (∀ b, value.asBool ≠ .ok b) → Unreadable "recast" value
  | packages {value : Json} : (∀ packages, value.asDict PackageConfig.ofJson ≠ .ok packages) →
      Unreadable "packages" value

/-- **When a configuration cannot be read**: a member that has a meaning is there and is
`Unreadable`. -/
theorem mergedOver_ne_ok_iff (hd : d.OnlyForeign) (hasc : Ascending existing) :
    (∀ r, d.mergedOver (.object existing) ≠ .ok r) ↔
      ∃ key value, findMember? key existing = some value ∧ Unreadable key value := by
  simp only [ne_eq, mergedOver_eq_ok_iff_merges hd hasc]
  constructor
  · intro hnone
    by_contra hall
    simp only [not_exists, not_and] at hall
    have hread : ∀ {α : Type} {read : Json → Except Mismatch α} (key : String) (default : α),
        (∀ value, (∀ a, read value ≠ .ok a) → Unreadable key value) →
        ∃ a, Json.readOr read default (findMember? key existing) = .ok a := by
      intro α read key default hbad
      refine Json.exists_readOr (fun value hvalue => ?_) default
      by_contra hno
      exact hall key value hvalue (hbad value fun a ha => hno ⟨a, ha⟩)
    obtain ⟨version, hversion⟩ := hread "version" d.version fun _ => .version
    obtain ⟨prettier, hprettier⟩ := hread "prettier" d.prettier fun _ => .prettier
    obtain ⟨recast, hrecast⟩ := hread "recast" d.recast fun _ => .recast
    obtain ⟨packages, hpackages⟩ := hread "packages" d.packages fun _ => .packages
    exact hnone ⟨version, prettier, recast, packages, _⟩
      ⟨hversion, hprettier, hrecast, hpackages, get?_mergedOther hasc⟩
  · rintro ⟨key, value, hvalue, hbad⟩ r ⟨hversion, hprettier, hrecast, hpackages, -⟩
    simp only [Json.member?] at hversion hprettier hrecast hpackages
    cases hbad with
    | version hbad => exact hbad _ (by rwa [hvalue] at hversion)
    | prettier hbad => exact hbad _ (by rwa [hvalue] at hprettier)
    | recast hbad => exact hbad _ (by rwa [hvalue] at hrecast)
    | packages hbad => exact hbad _ (by rwa [hvalue] at hpackages)

/-- **Members without a meaning** neither make a configuration unreadable nor change one of its
`fields`. -/
theorem map_fields_mergedOver (hd : d.OnlyForeign) {existing' : List (String × Json)}
    (hasc : Ascending existing) (hasc' : Ascending existing')
    (hsame : ∀ key ∈ knownKeys, findMember? key existing' = findMember? key existing) :
    (d.mergedOver (.object existing')).map fields = (d.mergedOver (.object existing)).map fields := by
  have hread : d.readFields existing' = d.readFields existing := by
    rw [readFields, readFields, hsame "packages" (by decide), hsame "prettier" (by decide),
      hsame "recast" (by decide), hsame "version" (by decide)]
  rw [mergedOver_object hd hasc, mergedOver_object hd hasc', hread]
  cases d.readFields existing with
  | error mismatch => rfl
  | ok found => rfl

/-- Other flags `prettier'` and `recast'` change nothing but the flags. -/
theorem mergedOver_of_flags {config : MigrationConfig} (hasc : Ascending existing)
    {prettier recast : Bool} (h : (fresh prettier recast).mergedOver (.object existing) = .ok config)
    (prettier' recast' : Bool) :
    ∃ config', (fresh prettier' recast').mergedOver (.object existing) = .ok config' ∧
      config'.packages = config.packages := by
  obtain ⟨hversion, hprettier, hrecast, hpackages, -⟩ :=
    (mergedOver_eq_ok_iff_merges (onlyForeign_fresh prettier recast) hasc).1 h
  -- a flag is read again, or is the new default
  have hflag : ∀ {member : Option Json} {default b : Bool},
      Json.readOr Json.asBool default member = .ok b → ∀ default' : Bool,
        ∃ b', Json.readOr Json.asBool default' member = .ok b' := by
    intro member default b hb default'
    refine Json.exists_readOr (fun value hvalue => ⟨b, ?_⟩) default'
    rwa [hvalue] at hb
  obtain ⟨p, hp⟩ := hflag hprettier prettier'
  obtain ⟨r, hr⟩ := hflag hrecast recast'
  exact ⟨⟨config.version, p, r, config.packages, _⟩,
    (mergedOver_eq_ok_iff_merges (onlyForeign_fresh prettier' recast') hasc).2
      ⟨hversion, hp, hr, hpackages, get?_mergedOther hasc⟩, rfl⟩

/-! ## The whole law -/

/-- What `Merges` has no member with a meaning among the others, and these are `Canonical` if those
of the file and of the defaults are. -/
theorem Merges.canonical {e : Json} (h : Merges d e r) (he : e.Canonical)
    (hother : ∀ m ∈ d.other.entries, m.2.Canonical) :
    r.OnlyForeign ∧ ∀ m ∈ r.other.entries, m.2.Canonical := by
  have hget : ∀ m ∈ r.other.entries, m.1 ∉ knownKeys ∧
      (e.member? m.1).or (d.other.get? m.1) = some m.2 := by
    intro m hm
    have hvalue := (h.other m.1).symm.trans (findMember?_of_mem r.other.ascending.nodup hm)
    by_cases hkey : m.1 ∈ knownKeys
    · rw [if_pos hkey] at hvalue
      cases hvalue
    · rw [if_neg hkey] at hvalue
      exact ⟨hkey, hvalue⟩
  refine ⟨fun key hkey => ?_, fun m hm => ?_⟩
  · obtain ⟨m, hm, rfl⟩ := List.mem_map.1 hkey
    exact (hget m hm).1
  · rcases Option.or_eq_some_iff.1 (hget m hm).2 with hfound | ⟨-, hfound⟩
    · cases e with
      | object existing => exact Json.canonicalMembers_iff.1 he.2 _ (mem_of_findMember? hfound)
      | _ => cases hfound
    · exact hother _ (mem_of_findMember? hfound)

/-- **A shallow merge.** Over defaults `d` whose other members have no meaning, a value `e` is read
as a configuration unless it is no object, or a member that has a meaning is there and is
`Unreadable` on its own. The configuration has every field from its member, if that is there, and
from the defaults otherwise; and its `other` members are those of the value and, of the defaults,
those that the value lacks. Other members change neither the fields nor whether there is a fault,
and which one. Over defaults without other members the configuration is read back from its
`toJson`. -/
theorem mergedOver_shallow (hd : d.OnlyForeign) (hother : ∀ m ∈ d.other.entries, m.2.Canonical)
    {e : Json} (he : e.Canonical) :
    ((∀ r, d.mergedOver e ≠ .ok r) ↔ (∀ members, e ≠ .object members) ∨
      ∃ key value, e.member? key = some value ∧ Unreadable key value) ∧
    (∀ r, d.mergedOver e = .ok r → Merges d e r ∧
      ∀ defaults : MigrationConfig, defaults.other = {} → defaults.mergedOver r.toJson.sorted = .ok r) ∧
    ∀ members members', e = .object members → (Json.object members').Canonical →
      (∀ key ∈ knownKeys, findMember? key members' = findMember? key members) →
      (d.mergedOver (.object members')).map fields = (d.mergedOver e).map fields := by
  refine ⟨?_, fun r hr => ?_, ?_⟩
  · cases e with
    | object existing =>
      rw [mergedOver_ne_ok_iff hd he.1]
      refine (or_iff_right fun hno => hno existing rfl).symm
    | _ => simp [mergedOver]
  · cases e with
    | object existing =>
      have hmerges := (mergedOver_eq_ok_iff_merges hd he.1).1 hr
      obtain ⟨hforeign, hcanonical⟩ := hmerges.canonical he hother
      refine ⟨hmerges, fun defaults hnone => ?_⟩
      rw [mergedOver_completedBy hforeign hcanonical, completedBy_eq fun key hkey => ?_]
      rw [hnone] at hkey
      cases hkey
    | _ => cases hr
  · rintro members members' rfl he' hsame
    exact map_fields_mergedOver hd he.1 he'.1 hsame

/-- Defaults with a package and with members that have no meaning. -/
def laden : MigrationConfig :=
  { fresh true false with
    packages := .ofList [("a", ⟨"a/**", [], {}⟩)]
    other := .ofList [("x", .null), ("y", .null)] }

/-- An object with other packages, a flag and a member that has no meaning. -/
def overlay : Json :=
  .object [("packages", .object [("b", .array [.string "b/**", .array []])]), ("prettier", .bool false),
    ("y", .bool true)]

/-- It takes the place of the packages, and of nothing that it lacks; and a flag that is `null`
cannot be read. -/
theorem mergedOver_shallow_overlay :
    laden.OnlyForeign ∧ (∀ m ∈ laden.other.entries, m.2.Canonical) ∧ overlay.Canonical ∧
    (∃ r, laden.mergedOver overlay = .ok r ∧ r.prettier = false ∧ r.recast = false ∧
      r.packages.keys = ["b"] ∧ r.other.get? "x" = some .null ∧
      r.other.get? "y" = some (.bool true) ∧
      (fresh false true).mergedOver r.toJson.sorted = .ok r) ∧
    ∀ r, laden.mergedOver (.object [("recast", .null)]) ≠ .ok r := by
  have hforeign : laden.OnlyForeign := by
    show ∀ key ∈ laden.other.keys, key ∉ knownKeys
    decide +kernel
  have hother : ∀ m ∈ laden.other.entries, m.2.Canonical := by
    have hnull : ∀ m ∈ laden.other.entries, m = ("x", .null) ∨ m = ("y", .null) := by
      intro m hm
      simpa using (List.mem_cons.1 hm).imp_right List.mem_singleton.1
    intro m hm
    rcases hnull m hm with rfl | rfl
    · trivial
    · trivial
  have hcanonical : overlay.Canonical := by
    refine ⟨?_, ⟨?_, ⟨trivial, trivial, trivial⟩, trivial⟩, trivial, trivial, trivial⟩
    · unfold Ascending
      decide
    · unfold Ascending
      decide
  obtain ⟨-, hmerges, -⟩ := mergedOver_shallow hforeign hother hcanonical
  refine ⟨hforeign, hother, hcanonical, ?_, ?_⟩
  · have hok : (laden.mergedOver overlay).isOk = true := by decide +kernel
    have hkeys : (laden.mergedOver overlay).toOption.map (·.packages.keys) = some ["b"] := by
      decide +kernel
    cases hrun : laden.mergedOver overlay with
    | error fault =>
      rw [hrun] at hok
      cases hok
    | ok r =>
      rw [hrun] at hkeys
      obtain ⟨hr, hagain⟩ := hmerges r hrun
      refine ⟨r, rfl, (Except.ok.inj hr.prettier).symm, (Except.ok.inj hr.recast).symm,
        Option.some.inj hkeys, ?_, ?_, hagain _ rfl⟩
      · rw [hr.other]
        rfl
      · rw [hr.other]
        rfl
  · have hsingle : (Json.object [("recast", .null)]).Canonical :=
      ⟨List.pairwise_singleton _ _, trivial, trivial⟩
    exact (mergedOver_shallow hforeign hother hsingle).1.2
      (.inr ⟨"recast", .null, rfl, .recast fun _ h => by cases h⟩)

end MigrationConfig

namespace ConfigStore

/-- With other flags a `text` stands for the same packages. -/
theorem parse_of_flags {prettier recast : Bool} {text : String} {config : MigrationConfig}
    (h : parse (.fresh prettier recast) text = .ok config) (prettier' recast' : Bool) :
    ∃ config', parse (.fresh prettier' recast') text = .ok config' ∧
      config'.packages = config.packages := by
  obtain ⟨existing, hparse, hmerged⟩ := exists_object_of_parse h
  obtain ⟨config', hmerged', hpackages⟩ :=
    MigrationConfig.mergedOver_of_flags (Json.parse_sound hparse).2.1 hmerged prettier' recast'
  exact ⟨config', by rw [parse, hparse]; exact hmerged', hpackages⟩

end ConfigStore

end FlowMigration
