import JackToolchain.Disk
import Std.Data.TreeMap

/-!
# File trees

A disk as a value: which file or directory stands at which location.

* `Location` — the names from the root down.
* `FileTree` — what stands where, and the current directory.
* `FileTree.admitted` — a path within the limits of the disk.
* `FileTree.resolve` — the location to which a path leads.
* `World` — a file tree and what was printed.
* `World.disk` — the operations of a disk on a world.

There are no links, so a location has one path without `..`.  A path leads through directories only:
a component behind a file, be it empty or a dot, leads nowhere.

Names and paths have a greatest length, counted in bytes.  That of paths, and that no null character
is in them, is checked in front of everything else; that of a name only where the name is looked up,
so behind a directory that exists.
-/

namespace JackToolchain.Disk

/-- The names from the root down. -/
abbrev Location := List String

/-- What stands at a location. -/
inductive Node where
  | directory
  | file (content : ByteArray)

/-- What stands at a location, without its content. -/
def Node.kind : Node → NodeKind
  | directory => .directory
  | file _ => .file

/-- Files and directories by location.  A directory stands at the root of every tree. -/
structure FileTree where
  nodes : Std.TreeMap Location Node := {}
  /-- Where paths begin that do not begin at the root. -/
  current : Location := []

namespace FileTree

/-! ## Locations -/

/-- What stands at a location. -/
def node? (tree : FileTree) (location : Location) : Option Node :=
  if location = [] then some .directory else tree.nodes[location]?

/-- Puts a node at a location. -/
def put (tree : FileTree) (location : Location) (node : Node) : FileTree :=
  { tree with nodes := tree.nodes.insert location node }

/-- Puts a node at a location, and directories at those in front of it where nothing stands. -/
def putDeep (tree : FileTree) (location : Location) (node : Node) : FileTree :=
  let directories := (List.range location.length).map location.take
  let grown := directories.foldl
    (fun tree outer => if (tree.node? outer).isSome then tree else tree.put outer .directory) tree
  grown.put location node

@[simp] theorem node?_put (tree : FileTree) (location other : Location) (node : Node) :
    (tree.put location node).node? other =
      if other = [] then some .directory
      else if location = other then some node else tree.node? other := by
  by_cases root : other = []
  · simp [node?, root]
  · simp [node?, put, root, Std.TreeMap.getElem?_insert]

/-! ## Limits -/

/-- The most bytes in a name. -/
def longestName : Nat := 255

/-- The most bytes in a path. -/
def longestPath : Nat := 4095

/-- A path, if it may be looked up at all. -/
def admitted (path : Path) : Except DiskError Path :=
  if path.text.toList.contains '\x00' then .error .nullCharacter
  else if longestPath < path.text.utf8ByteSize then .error .nameTooLong
  else .ok path

/-! ## Paths -/

/-- One component further.  Only a directory has components behind it. -/
def walk (tree : FileTree) (location : Location) (component : List Char) :
    Except DiskError Location :=
  match tree.node? location with
  | none => .error .notFound
  | some (.file _) => .error .notADirectory
  | some .directory =>
    if Path.isTrivial component then .ok location
    else if component = ['.', '.'] then .ok location.dropLast
    else
      let name := String.ofList component
      if longestName < name.utf8ByteSize then .error .nameTooLong else .ok (location ++ [name])

/-- The location to which a path within the limits leads. -/
def follow (tree : FileTree) (path : Path) : Except DiskError Location :=
  match path.text.toList with
  | [] => .error .notFound
  | '/' :: rest => (Path.split rest).foldlM tree.walk []
  | cs => (Path.split cs).foldlM tree.walk tree.current

/-- The location to which a path leads, whether or not something stands there. -/
def resolve (tree : FileTree) (path : Path) : Except DiskError Location := do
  tree.follow (← admitted path)

/-- What stands at the end of a path, and where that is. -/
def find (tree : FileTree) (path : Path) : Except DiskError (Location × Node) := do
  let location ← tree.resolve path
  match tree.node? location with
  | some node => return (location, node)
  | none => throw .notFound

/-! ## Operations -/

/-- What stands at a path. -/
def kind (tree : FileTree) (path : Path) : Except DiskError NodeKind :=
  (tree.find path).map (·.2.kind)

/-- The names in a directory. -/
def list (tree : FileTree) (path : Path) : Except DiskError (List String) := do
  match ← tree.find path with
  | (location, .directory) =>
    return tree.nodes.keys.filterMap fun inner =>
      if inner.dropLast = location then inner.getLast? else none
  | (_, .file _) => throw .notADirectory

/-- The text of a file. -/
def read (tree : FileTree) (path : Path) : Except DiskError String := do
  match ← tree.find path with
  | (_, .directory) => throw .isADirectory
  | (_, .file content) =>
    match String.fromUTF8? content with
    | some content => return content
    | none => throw .notText

/-- Replaces or makes a file. -/
def write (tree : FileTree) (path : Path) (content : String) : Except DiskError FileTree := do
  let location ← tree.resolve path
  match tree.node? location with
  | some .directory => throw .isADirectory
  | _ => return tree.put location (.file content.toUTF8)

/-- A path without the slashes at its end, which mean nothing for a directory that is to be made. -/
def dropSlashes (path : Path) : Path :=
  let kept := path.text.toList.reverse.dropWhile (· == '/')
  if kept.isEmpty then path else ⟨String.ofList kept.reverse⟩

/-- Makes a directory in one that exists. -/
def makeDirectory (tree : FileTree) (path : Path) : Except DiskError FileTree := do
  let location ← tree.follow (dropSlashes (← admitted path))
  if (tree.node? location).isSome then throw .alreadyExists
  return tree.put location .directory

/-- The path of a location. -/
def pathOf (location : Location) : Path :=
  ⟨"/" ++ "/".intercalate location⟩

/-- The path of what stands at a path; the path itself if nothing does. -/
def canonical (tree : FileTree) (path : Path) : Path :=
  match tree.find path with
  | .ok (location, _) => pathOf location
  | .error _ => path

end FileTree

/-! ## Worlds -/

/-- A file tree and what was printed on the two channels. -/
structure World where
  tree : FileTree
  said : List String := []
  complained : List String := []

namespace World

/-- An operation that only looks. -/
def look {α : Type} (operation : FileTree → α) : StateM World α :=
  return operation (← get).tree

/-- An operation that changes the tree unless it fails. -/
def change (operation : FileTree → Except DiskError FileTree) :
    StateM World (Except DiskError Unit) := do
  let world ← get
  match operation world.tree with
  | .ok tree =>
    set { world with tree }
    return .ok ()
  | .error error => return .error error

/-- The operations of a disk on a world. -/
def disk : Disk (StateM World) where
  kind path := look (·.kind path)
  list path := look (·.list path)
  read path := look (·.read path)
  write path content := change (·.write path content)
  makeDirectory path := change (·.makeDirectory path)
  canonical path := look (·.canonical path)
  say line := modify fun world => { world with said := world.said ++ [line] }
  complain line := modify fun world => { world with complained := world.complained ++ [line] }

end World

end JackToolchain.Disk
