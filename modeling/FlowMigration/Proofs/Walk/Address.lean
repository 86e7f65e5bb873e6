import FlowMigration.Proofs.Disk.Names
import FlowMigration.Proofs.Walk.Alike

/-!
# The paths that a repository is given by

A directory has one absolute path without links, its `Disk.pathOf`, and any number of paths that
lead there through links. A walk reads the ignore file of its start by the path that it was given,
and those of the directories around by their absolute paths.

* `Disk.Addresses`: the path `root` leads to `home`, and on to every ignore file below it that the
  absolute path leads on to.
* `Addresses.of_pathOf`, `Addresses.of_links`: the absolute path does, and so does a path that
  leaves enough of its `maxLinks` links to the ignore files.
* `Addresses.layer_eq`: then the layer of every directory below is the same by both paths.
-/

namespace FlowMigration

namespace IgnoreLayer

variable {disk : Disk}

/-- The names on the way to each of the `filePaths`. -/
def fileNameLists : List (List String) := [[".ignore"], [".gitignore"], [".git", "info", "exclude"]]

/-- An ignore file of a directory, `rel`, is what legal names lead to from there. -/
theorem exists_names_of_mem_filePaths {rel : String} (h : rel ∈ filePaths) :
    ∃ names, (∀ n ∈ names, LegalName n) ∧ (∀ n ∈ names, n ∈ fileNameLists.flatten) ∧
      Path.pieces rel.toList = names.map String.toList ∧
      ∀ base, base ≠ "" → Path.join base rel = Path.joinAll base names := by
  have hall : ∀ rel ∈ filePaths, ∃ names ∈ fileNameLists, names ≠ [] ∧ Path.ofSegments names = rel ∧
      Path.pieces rel.toList = names.map String.toList ∧
      ∀ n ∈ names, LegalName n ∧ n ∈ fileNameLists.flatten := by decide
  obtain ⟨names, -, hne, rfl, hpieces, hnames⟩ := hall rel h
  exact ⟨names, fun n hn => (hnames n hn).1, fun n hn => (hnames n hn).2, hpieces,
    fun base hb => (Path.joinAll_eq_join hb hne fun n hn => (hnames n hn).1.toIsName).symm⟩

/-- No entry in `entries` with the name of an ignore file, or of a directory that holds one, is a
link. -/
def PlainIgnoreFiles (entries : List (String × Node)) : Prop :=
  ∀ e ∈ entries, e.1 ∈ fileNameLists.flatten → e.2.isDir || e.2.isFile

instance : DecidablePred PlainIgnoreFiles := fun entries =>
  inferInstanceAs (Decidable (∀ e ∈ entries, _))

/-- The rules in a file do not depend on the path it is called by, `file` or `file'`, which only the
faults name. -/
theorem rules_readLines (file file' : String) (number : Nat) (lines : List (List UInt8)) :
    (readLines file number lines).1 = (readLines file' number lines).1 := by
  induction lines generalizing number with
  | nil => rfl
  | cons line more ih =>
    rw [readLines, readLines]
    cases String.fromUTF8? ⟨line.toArray⟩ with
    | none => rfl
    | some text =>
      dsimp only
      rw [← ih]
      split <;> rfl

/-- Two paths by which the same `bytes` are read, or both none, give the same rules. -/
theorem rules_readFile_congr {file file' : String}
    (h : (disk.readBytes file).toOption = (disk.readBytes file').toOption) :
    (readFile disk file).1 = (readFile disk file').1 := by
  have hrules : ∀ file, (readFile disk file).1 =
      ((disk.readBytes file).toOption.map fun bytes =>
        (readLines "" 1 (linesOf bytes.toList)).1).getD [] := by
    intro file
    unfold readFile
    cases disk.readBytes file with
    | error e => rfl
    | ok bytes =>
      rw [Except.toOption, Option.map_some, Option.getD_some, rules_readLines "" file]
      dsimp only
      split <;> rfl
  rw [hrules, hrules, h]

/-- The layer of a directory holds the same rules by the paths `dir` and `dir'`, by which its ignore
files read the same. -/
theorem layer_congr {dir dir' : String}
    (h : ∀ rel ∈ filePaths, (disk.readBytes (Path.join dir rel)).toOption =
      (disk.readBytes (Path.join dir' rel)).toOption) (below : List String) :
    (ofDirectory disk dir below).1 = (ofDirectory disk dir' below).1 := by
  have hrules : ∀ rel ∈ filePaths, (readFile disk (Path.join dir rel)).1 =
      (readFile disk (Path.join dir' rel)).1 := fun rel hrel => rules_readFile_congr (h rel hrel)
  simp only [ofDirectory, hrules _ (show ".ignore" ∈ filePaths by simp [filePaths]),
    hrules _ (show ".gitignore" ∈ filePaths by simp [filePaths]),
    hrules _ (show ".git/info/exclude" ∈ filePaths by simp [filePaths])]

end IgnoreLayer

namespace Disk

variable {disk : Disk} {root : String} {home names : List String}

theorem readBytes_congr {path path' : String}
    (h : ∀ place, disk.locate path = .ok place ↔ disk.locate path' = .ok place) :
    (disk.readBytes path).toOption = (disk.readBytes path').toOption := by
  cases hl : disk.locate path with
  | ok place =>
    rw [readBytes, readBytes, node, node, hl, (h place).1 hl]
  | error e =>
    cases hl' : disk.locate path' with
    | ok place => rw [(h place).2 hl'] at hl; cases hl
    | error e' => rw [readBytes_of_error hl, readBytes_of_error hl']; rfl

/-- The `names` on whose way there is no link lead where they say. -/
theorem eq_of_follow_unlinked {top : Node} {links : Nat} {here place : List String}
    (hlegal : ∀ n ∈ names, LegalName n)
    (hplain : ∀ front, ∀ n ∈ names, ∀ target, top.kindAt (here ++ front ++ [n]) ≠ some (.link target))
    (h : follow top links here (names.map String.toList) = .ok place) : place = here ++ names := by
  induction names generalizing here links with
  | nil =>
    rw [List.map_nil, follow_nil] at h
    rw [List.append_nil, Except.ok.inj h]
  | cons n names ih =>
    have hnamed := Named.of_legal (hlegal n List.mem_cons_self)
    obtain ⟨left, next, more, hl, hf⟩ := follow_cons_ok.1 h
    cases hl with
    | idle hd hp => exact absurd hp hnamed.not_idle
    | up hd hp => exact absurd hp hnamed.not_up
    | link hd hp hk ht =>
      rw [String.ofList_toList] at hk
      exact absurd (by rwa [List.append_nil]) (hplain [] n List.mem_cons_self _)
    | entry hd hp hk =>
      rw [String.ofList_toList, List.nil_append] at hf
      rw [ih (fun m hm => hlegal m (List.mem_cons_of_mem _ hm)) (fun front m hm target => ?_) hf,
        List.append_assoc, List.singleton_append]
      have hon := hplain (n :: front) m (List.mem_cons_of_mem _ hm) target
      rwa [← List.singleton_append, ← List.append_assoc] at hon

/-- **`root` addresses `home`**: it leads there, and from there on to every ignore file that the
absolute path of `home` leads on to. A path with too many links on it leads to `home` but not on to
an ignore file that is a link itself. -/
structure Addresses (disk : Disk) (root : String) (home : List String) : Prop where
  located : disk.locate root = .ok home
  ignoreFiles : ∀ names, disk.root.kindAt (home ++ names) = some .dir →
    ∀ rel ∈ IgnoreLayer.filePaths, ∀ place,
      disk.locate (Path.join (pathOf (home ++ names)) rel) = .ok place →
        disk.locate (Path.join (Path.joinAll root names) rel) = .ok place

namespace Addresses

theorem ne_empty (h : disk.Addresses root home) : root ≠ "" :=
  (locate_eq_ok.1 h.located).2.1

section
variable (hw : disk.root.WellFormed)
include hw

theorem legal (hdir : disk.root.kindAt (home ++ names) = some .dir) :
    ∀ n ∈ home ++ names, LegalName n := by
  obtain ⟨inside, hinside⟩ := Node.kindAt_eq_dir.1 hdir
  exact hw.legal hinside

theorem inside (h : disk.Addresses root home)
    (hdir : disk.root.kindAt (home ++ names) = some .dir) :
    disk.Addresses (Path.joinAll root names) (home ++ names) := by
  have hlegal : ∀ n ∈ names, LegalName n := fun n hn =>
    legal hw hdir n (List.mem_append_right _ hn)
  refine ⟨locate_joinAll h.located hlegal (.inl hdir), fun more hmore rel hrel place hplace => ?_⟩
  rw [List.append_assoc] at hmore hplace
  rw [← Path.joinAll_append]
  exact h.ignoreFiles (names ++ more) hmore rel hrel place hplace

/-- **A path that leaves enough links** addresses where it leads: it takes at most `used` of its
`maxLinks` links, and `extra` more suffice on the way to any ignore file below `home`. -/
theorem of_links {used extra : Nat} (hle : used + extra ≤ maxLinks)
    (hl : disk.locate root = .ok home)
    (hused : follow disk.root used (start disk.workingDir root).1 (start disk.workingDir root).2 =
      .ok home)
    (hextra : ∀ names, disk.root.kindAt (home ++ names) = some .dir →
      ∀ rel ∈ IgnoreLayer.filePaths, ∀ place,
        disk.locate (Path.join (pathOf (home ++ names)) rel) = .ok place →
          follow disk.root extra (home ++ names) (Path.pieces rel.toList) = .ok place) :
    disk.Addresses root home := by
  refine ⟨hl, fun names hnames rel hrel place hplace => ?_⟩
  have hlegal : ∀ n ∈ names, LegalName n := fun n hn =>
    legal hw hnames n (List.mem_append_right _ hn)
  obtain ⟨more, hmore, -, hpieces, hjoin⟩ := IgnoreLayer.exists_names_of_mem_filePaths hrel
  have hroot : root ≠ "" := (locate_eq_ok.1 hl).2.1
  rw [hjoin _ (Path.joinAll_ne_empty hroot fun n hn => (hlegal n hn).toIsName),
    ← Path.joinAll_append]
  obtain ⟨front, hfront, hjoined⟩ := exists_front_joinAll hl fun n hn =>
    (List.mem_append.1 hn).elim (hlegal n) (hmore n)
  have hrest : follow disk.root extra home ((names ++ more).map String.toList) = .ok place := by
    rw [List.map_append, follow_names_append hlegal (.inl hnames), ← hpieces]
    exact hextra names hnames rel hrel place hplace
  exact (hjoined place).2 (follow_mono hle (follow_add (follow_front hfront hused) hrest))

variable (htop : disk.root.kindAt [] = some .dir)
include htop

/-- **The absolute path** of a directory, its `pathOf`, addresses it. -/
theorem of_pathOf (hdir : disk.root.kindAt home = some .dir) :
    disk.Addresses (pathOf home) home := by
  refine ⟨locate_pathOf hw htop (.inl hdir), fun names hnames rel _ place hplace => ?_⟩
  rwa [joinAll_pathOf fun n hn => (legal hw hnames n hn).toIsName]

/-- **Any path to `home` addresses it** where no ignore file below is a link, nor a directory in
which one is looked for. -/
theorem of_plainIgnoreFiles (hl : disk.locate root = .ok home) {node : Node}
    (hnode : disk.root.get? home = some node)
    (hplain : node.Throughout IgnoreLayer.PlainIgnoreFiles) : disk.Addresses root home := by
  refine ⟨hl, fun names hnames rel hrel place hplace => ?_⟩
  have hlegal := legal hw hnames
  obtain ⟨more, hmore, hfiles, -, hjoin⟩ := IgnoreLayer.exists_names_of_mem_filePaths hrel
  have hroot : root ≠ "" := (locate_eq_ok.1 hl).2.1
  rw [hjoin _ (pathOf_ne_empty _)] at hplace
  rw [hjoin _ (Path.joinAll_ne_empty hroot fun n hn =>
    (hlegal n (List.mem_append_right _ hn)).toIsName), ← Path.joinAll_append]
  -- the way to the ignore file goes through no link, so it ends where its names say
  have hend : place = home ++ names ++ more := by
    refine eq_of_follow_unlinked hmore (fun front n hn target hlink => ?_)
      ((locate_joinAll_pathOf hw htop hnames hmore).1 hplace)
    rw [Node.kindAt_eq_link, Node.get?_concat, List.append_assoc, Node.get?_append, hnode,
      Option.bind_some] at hlink
    split at hlink
    · next entries hentries =>
      have hno := (hplain.get? hentries).own _ (Entries.mem_of_get? hlink) (hfiles n hn)
      simp [Node.isDir, Node.isFile] at hno
    · cases hlink
  rw [hend, List.append_assoc]
  refine locate_joinAll hl (fun n hn => ?_) ?_
  · exact (List.mem_append.1 hn).elim (fun hn => hlegal n (List.mem_append_right _ hn)) (hmore n)
  · rw [← List.append_assoc, ← hend]
    exact stands_of_locate hplace

/-- The ignore files below are found by both paths or by none, if `root` addresses `home`. -/
theorem locate_ignoreFile (h : disk.Addresses root home)
    (hdir : disk.root.kindAt (home ++ names) = some .dir) {rel : String}
    (hrel : rel ∈ IgnoreLayer.filePaths) (place : List String) :
    disk.locate (Path.join (Path.joinAll root names) rel) = .ok place ↔
      disk.locate (Path.join (pathOf (home ++ names)) rel) = .ok place := by
  refine ⟨fun hplace => ?_, h.ignoreFiles names hdir rel hrel place⟩
  have hlegal : ∀ n ∈ names, LegalName n := fun n hn =>
    legal hw hdir n (List.mem_append_right _ hn)
  obtain ⟨more, hmore, -, -, hjoin⟩ := IgnoreLayer.exists_names_of_mem_filePaths hrel
  rw [hjoin _ (Path.joinAll_ne_empty h.ne_empty fun n hn => (hlegal n hn).toIsName)] at hplace
  rw [hjoin _ (pathOf_ne_empty _), locate_joinAll_pathOf hw htop hdir hmore]
  exact follow_of_locate_joinAll (locate_joinAll h.located hlegal (.inl hdir)) hmore hplace

/-- **The layer of a directory below** holds the same rules by the path from `root` and by the
absolute one. -/
theorem layer_eq (h : disk.Addresses root home)
    (hdir : disk.root.kindAt (home ++ names) = some .dir) (below : List String) :
    (IgnoreLayer.ofDirectory disk (Path.joinAll root names) below).1 =
      (IgnoreLayer.ofDirectory disk (pathOf (home ++ names)) below).1 :=
  IgnoreLayer.layer_congr (fun _ hrel =>
    readBytes_congr (h.locate_ignoreFile hw htop hdir hrel)) below

end

end Addresses

end Disk

end FlowMigration
