import FlowMigration.Proofs.Path.Stack
import FlowMigration.Specifier

/-!
# What specifiers name

* `Specifier.classify_of_dot`, `Specifier.classify_of_no_dot`: what a specifier points to.
* `Specifier.moduleRoot_packageName`: the root of a module is the root of its package.
* `Specifier.resolve_eq`: what a relative specifier names is what is left of its segments behind
  those of the directory, read with slashes for backslashes. `Specifier.resolve_normalizes` is the
  case without backslashes.
* `Specifier.canonical_iff_resolve`: the paths that are named once more by themselves.
-/

namespace FlowMigration.Specifier

theorem classify_of_dot {request : String} (h : request.toList.head? = some '.') (file : String) :
    classify file request = .relative (resolve file request) := by
  simp [classify, isRelative, h]

theorem classify_of_no_dot {request : String} (h : request.toList.head? ≠ some '.') (file : String) :
    classify file request = .external (moduleRoot request) := by
  simp [classify, isRelative, h]

theorem moduleRoot_of_no_slash {name : String} (h : '/' ∉ name.toList) : moduleRoot name = name := by
  rw [moduleRoot, Path.segments_of_no_slash h]
  rfl

/-- **The root of a module** is the root of its package: of a scoped package, `moduleRoot` is the
scope. -/
theorem moduleRoot_packageName (request : String) :
    moduleRoot (packageName request) = moduleRoot request := by
  have hslash : ∀ segment ∈ Path.segments request, '/' ∉ segment.toList := fun _ h =>
    Path.no_slash_of_mem_segments h
  unfold packageName
  rw [moduleRoot.eq_def request]
  cases hsegments : Path.segments request with
  | nil => rfl
  | cons first rest =>
    have hfirst : '/' ∉ first.toList := hslash first (by simp [hsegments])
    cases rest with
    | nil => exact moduleRoot_of_no_slash hfirst
    | cons second more =>
      dsimp only
      split
      · rw [moduleRoot, Path.segments_append_slash, Path.segments_of_no_slash hfirst]
        rfl
      · exact moduleRoot_of_no_slash hfirst

/-! ## Relative specifiers -/

theorem segments_directory {file : String} (h : (Path.segments file).dropLast ≠ []) :
    Path.segments (directory file) = (Path.segments file).dropLast :=
  Path.segments_ofSegments h fun _ hs => Path.no_slash_of_mem_segments (List.dropLast_subset _ hs)

/-- The segments of the `directory` of `file`, and `segs` behind them, as they are worked off. -/
theorem normalize_directory (file : String) (segs : List String) :
    Path.normalize (Path.segments (directory file) ++ segs) =
      Path.normalize ((Path.segments file).dropLast ++ segs) := by
  by_cases hnone : (Path.segments file).dropLast = []
  · -- a file at the root: its directory is the empty text, which is one empty segment
    rw [directory, hnone]
    rfl
  · rw [segments_directory hnone]

/-- **What `request` names** is what is left of its segments behind those of the directory of
`file`, read with slashes for backslashes and without slashes at the front. -/
theorem resolve_eq (file request : String) :
    resolve file request = String.ofList ((Path.forwardSlashes (Path.ofSegments (Path.normalize
      ((Path.segments file).dropLast ++ Path.segments request)))).toList.dropWhile (· = '/')) := by
  have htext : "/" ++ directory file ++ "/" ++ request = "/" ++ (directory file ++ "/" ++ request) := by
    simp only [String.append_assoc]
  have hfront : ∀ path, (Path.forwardSlashes ("/" ++ path)).toList =
      '/' :: (Path.forwardSlashes path).toList := by
    intro path
    simp [Path.forwardSlashes, String.toList_map]
  rw [resolve, htext, Path.clean_slash, Path.segments_append_slash, normalize_directory, hfront]
  rfl

theorem dropWhile_ofNames {names : List String} (h : ∀ n ∈ names, Path.IsName n) :
    String.ofList ((Path.ofSegments names).toList.dropWhile (· = '/')) = Path.ofSegments names := by
  have hfront : (Path.ofSegments names).toList.dropWhile (· = '/') =
      (Path.ofSegments names).toList := by
    cases names with
    | nil => rfl
    | cons n rest =>
      have hrel : Path.isAbsolute (Path.ofSegments (n :: rest)) = false :=
        Path.not_absolute_ofSegments (h n List.mem_cons_self)
      cases htext : (Path.ofSegments (n :: rest)).toList with
      | nil => rfl
      | cons c cs =>
        have hc : c ≠ '/' := by simpa [Path.isAbsolute, htext] using hrel
        exact List.dropWhile_cons_of_neg (by simpa using hc)
  rw [hfront, String.ofList_toList]

/-- What is worked off: the segments of the directory of `file` and those of `request`. -/
theorem no_slash_of_mem {file request segment : String}
    (h : segment ∈ (Path.segments file).dropLast ++ Path.segments request) :
    '/' ∉ segment.toList := by
  rcases List.mem_append.1 h with h | h
  · exact Path.no_slash_of_mem_segments (List.dropLast_subset _ h)
  · exact Path.no_slash_of_mem_segments h

theorem isName_of_mem {file request name : String}
    (h : name ∈ Path.normalize ((Path.segments file).dropLast ++ Path.segments request)) :
    Path.IsName name :=
  Path.isName_of_mem_normalize (fun _ => no_slash_of_mem) h

section Plain

variable {file request : String}
  (hplain : ∀ s ∈ (Path.segments file).dropLast ++ Path.segments request, '\\' ∉ s.toList)

include hplain

/-- **Without backslashes** `resolve` comes to the path of the names that are left. -/
theorem resolve_of_plain : resolve file request =
    Path.ofSegments (Path.normalize ((Path.segments file).dropLast ++ Path.segments request)) := by
  rw [resolve_eq, Path.forwardSlashes_of_not_mem (Path.not_mem_ofSegments (by decide) fun name hname =>
    hplain name (Path.mem_normalize hname).1)]
  exact dropWhile_ofNames fun _ => isName_of_mem

theorem canonical_of_plain : Path.Canonical (resolve file request) := by
  rw [resolve_of_plain hplain]
  exact Path.canonical_normalize fun _ => no_slash_of_mem

theorem normalize_of_root (hroot : resolve file request = "") :
    Path.normalize ((Path.segments file).dropLast ++ Path.segments request) = [] :=
  Path.eq_nil_of_ofNames_eq_empty (fun _ => isName_of_mem) (resolve_of_plain hplain ▸ hroot)

end Plain

/-- Specifiers `request` and `request'` that leave the same names name the same. -/
theorem resolve_congr {file request request' : String}
    (h : Path.normalize ((Path.segments file).dropLast ++ Path.segments request) =
      Path.normalize ((Path.segments file).dropLast ++ Path.segments request')) :
    resolve file request = resolve file request' := by
  rw [resolve_eq, resolve_eq, h]

/-- **Segments in the middle of a specifier** may be left out if these, called `idle`, leave the
stack where it stands behind `front`. -/
theorem resolve_insert {file front idle : String} (hfront : Path.IsFront front)
    (hidle : (Path.segments idle).foldl Path.pushSegment
        (Path.normalize ((Path.segments file).dropLast ++ Path.segments front)) =
      Path.normalize ((Path.segments file).dropLast ++ Path.segments front)) (rest : String) :
    resolve file (front ++ idle ++ "/" ++ rest) = resolve file (front ++ rest) := by
  obtain ⟨lead, hlead, hsegments⟩ := hfront.exists_segments
  have hopen : Path.normalize ((Path.segments file).dropLast ++ Path.segments front) =
      Path.normalize ((Path.segments file).dropLast ++ lead) := by
    rw [hlead, ← List.append_assoc, Path.normalize_append]
    rfl
  have htext : front ++ idle ++ "/" ++ rest = front ++ (idle ++ "/" ++ rest) := by
    simp only [String.append_assoc]
  apply resolve_congr
  rw [htext, hsegments, hsegments, Path.segments_append_slash, ← List.append_assoc,
    ← List.append_assoc, ← List.append_assoc, List.append_assoc (_ ++ lead)]
  exact Path.normalize_insert (hopen ▸ hidle) (Path.segments rest)

/-- **Relative specifiers are worked off segment by segment.** The segments of the directory of
`file` and then those of `request` are put on a stack of names (`Path.normalize`), on which two dots
take the last name back, if there is one; so they never climb above the root, and a dot, or a name
and two dots, may be put in where a segment begins. -/
theorem resolve_normalizes {file request : String} (hfile : '\\' ∉ file.toList)
    (hrequest : '\\' ∉ request.toList) :
    resolve file request =
      Path.ofSegments (Path.normalize ((Path.segments file).dropLast ++ Path.segments request)) ∧
    (∀ segment ∈ Path.segments (resolve file request), segment ≠ "..") ∧
    ∀ front rest, Path.IsFront front → request = front ++ rest →
      resolve file (front ++ "./" ++ rest) = resolve file request ∧
      (∀ name, Path.IsName name →
        resolve file (front ++ name ++ "/../" ++ rest) = resolve file request) ∧
      (resolve file front = "" → resolve file (front ++ "../" ++ rest) = resolve file request) := by
  have hplain : ∀ {text : String}, '\\' ∉ text.toList →
      ∀ s ∈ (Path.segments file).dropLast ++ Path.segments text, '\\' ∉ s.toList := by
    intro text htext s hs
    rcases List.mem_append.1 hs with hs | hs
    · exact Path.not_mem_segment hfile (List.dropLast_subset _ hs)
    · exact Path.not_mem_segment htext hs
  refine ⟨resolve_of_plain (hplain hrequest),
    fun _ => (canonical_of_plain (hplain hrequest)).ne_up, ?_⟩
  rintro front rest hfront rfl
  have hwritten : ∀ idle : String, front ++ (idle ++ "/") ++ rest = front ++ idle ++ "/" ++ rest := by
    intro idle
    simp only [String.append_assoc]
  refine ⟨?_, fun name hname => ?_, fun hroot => ?_⟩
  · exact (congrArg (resolve file) (hwritten ".")).trans (resolve_insert hfront rfl rest)
  · have hsegments : Path.segments (name ++ "/" ++ "..") = [name, ".."] := by
      rw [Path.segments_append_slash, Path.segments_of_no_slash hname.no_slash]
      rfl
    have htext : front ++ name ++ "/../" ++ rest = front ++ (name ++ "/" ++ "..") ++ "/" ++ rest := by
      rw [← hwritten]
      simp only [String.append_assoc]
      rfl
    rw [htext]
    refine resolve_insert hfront ?_ rest
    rw [hsegments, List.foldl_cons, List.foldl_cons, List.foldl_nil, Path.pushSegment_name hname,
      Path.pushSegment_up, List.dropLast_concat]
  · have hfree : '\\' ∉ front.toList := by
      rw [String.toList_append, List.mem_append, not_or] at hrequest
      exact hrequest.1
    have hnone := normalize_of_root (hplain hfree) hroot
    refine (congrArg (resolve file) (hwritten "..")).trans (resolve_insert hfront ?_ rest)
    rw [hnone]
    rfl

/-- Two dots at the root, of which `resolve` takes none as a name, with a dot, a name and two dots,
or two dots more put in behind them. -/
theorem resolve_normalizes_above_root :
    '\\' ∉ "pkg/src/a.js".toList ∧ '\\' ∉ "../../../o/./z.js".toList ∧
    resolve "pkg/src/a.js" "../../../o/./z.js" = "o/z.js" ∧
    (∀ segment ∈ Path.segments (resolve "pkg/src/a.js" "../../../o/./z.js"), segment ≠ "..") ∧
    resolve "pkg/src/a.js" ("../../" ++ "./" ++ "../o/./z.js") = "o/z.js" ∧
    resolve "pkg/src/a.js" ("../../" ++ "n" ++ "/../" ++ "../o/./z.js") = "o/z.js" ∧
    resolve "pkg/src/a.js" ("../../" ++ "../" ++ "../o/./z.js") = "o/z.js" := by
  have hfile : '\\' ∉ "pkg/src/a.js".toList := by decide
  have hrequest : '\\' ∉ "../../../o/./z.js".toList := by decide
  have hfront : Path.IsFront "../../" := .inr ⟨"../..", rfl⟩
  obtain ⟨hstack, hup, hinsert⟩ := resolve_normalizes hfile hrequest
  obtain ⟨hdot, hname, hroot⟩ := hinsert "../../" "../o/./z.js" hfront rfl
  have hnames : resolve "pkg/src/a.js" "../../../o/./z.js" = "o/z.js" := hstack.trans (by decide)
  exact ⟨hfile, hrequest, hnames, hup, hdot.trans hnames, (hname "n" (by decide)).trans hnames,
    (hroot (by decide +kernel)).trans hnames⟩

/-! ## Canonical paths -/

theorem no_backslash_resolve (file request : String) : '\\' ∉ (resolve file request).toList := by
  rw [resolve, String.toList_ofList]
  exact fun h => Path.no_backslash_forwardSlashes _ ((List.dropWhile_sublist _).mem h)

/-- Neither the `directory` nor the specifier `request` holds a backslash. -/
theorem plain_of_directory {file request : String} (hfile : '\\' ∉ (directory file).toList)
    (hrequest : '\\' ∉ request.toList) :
    ∀ s ∈ (Path.segments file).dropLast ++ Path.segments request, '\\' ∉ s.toList := by
  intro s hs
  rcases List.mem_append.1 hs with hs | hs
  · exact Path.not_mem_segment hfile (segments_directory (List.ne_nil_of_mem hs) ▸ hs)
  · exact Path.not_mem_segment hrequest hs

section Top

variable {top path : String} (htop : '/' ∉ top.toList) (hpath : '\\' ∉ path.toList)

include htop hpath

theorem plain_of_top : ∀ s ∈ (Path.segments top).dropLast ++ Path.segments path, '\\' ∉ s.toList := by
  rw [Path.segments_of_no_slash htop]
  exact fun _ => Path.not_mem_segment hpath

theorem canonical_resolve_top : Path.Canonical (resolve top path) :=
  canonical_of_plain (plain_of_top htop hpath)

/-- **`Canonical` paths** are those that name themselves in a file at the root, by `resolve`. -/
theorem canonical_iff_resolve : Path.Canonical path ↔ resolve top path = path := by
  rw [resolve_of_plain (plain_of_top htop hpath), Path.segments_of_no_slash htop]
  exact Path.canonical_iff_normalize

end Top

end FlowMigration.Specifier
