/-! # Folders

A tree of folders kept in an arena: every folder has a number, the root has number `0`, and a folder
knows the numbers of the folders inside it, in the order in which they came up and by name.

* `FolderArena.child`: the number of a folder inside another one, made if need be.
* `FolderArena.insert`: marks the folder that a path leads to.
-/

namespace FlowMigration

structure Folder where
  name : String := ""
  /-- The mark of the folder: the position of its manifest in the list that `ofPaths` was given. -/
  mark : Option Nat := none
  /-- The numbers of the folders inside, in the order in which `child` made them. -/
  children : List Nat := []
  /-- The same `children` by name. -/
  index : List (String × Nat) := []
deriving DecidableEq, Repr

/-- Folders by number, as `FolderArena.child` gives these out. -/
structure FolderArena where
  folders : Array Folder := #[{}]
deriving DecidableEq, Repr

namespace FolderArena

def root : Nat := 0

def empty : FolderArena := {}

def folder (arena : FolderArena) (id : Nat) : Folder := arena.folders.getD id {}

def size (arena : FolderArena) : Nat := arena.folders.size

/-- The number of the folder `name` inside `parent`, and the arena with that folder in it. -/
def child (arena : FolderArena) (parent : Nat) (name : String) : FolderArena × Nat :=
  match (arena.folder parent).index.lookup name with
  | some id => (arena, id)
  | none =>
    let id := arena.size
    let enter (f : Folder) : Folder :=
      { f with children := f.children ++ [id], index := f.index ++ [(name, id)] }
    (⟨(arena.folders.push { name }).modify parent enter⟩, id)

/-- The folder that `segments` lead to from the folder `id`, and the arena with all folders on the
way. -/
def descend (arena : FolderArena) (id : Nat) : List String → FolderArena × Nat
  | [] => (arena, id)
  | name :: rest =>
    let (arena, next) := arena.child id name
    arena.descend next rest

/-- Marks the folder that `segments` lead to; an earlier mark is replaced. -/
def insert (arena : FolderArena) (segments : List String) (mark : Nat) : FolderArena :=
  let (arena, id) := arena.descend root segments
  ⟨arena.folders.modify id fun f => { f with mark := some mark }⟩

/-- The arena of `paths`, each of which is inserted with its position as the mark. -/
def ofPaths (paths : List (List String)) : FolderArena :=
  paths.zipIdx.foldl (fun arena p => arena.insert p.1 p.2) empty

end FolderArena

end FlowMigration
