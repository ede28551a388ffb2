import JackToolchain.Disk.FileTree
import JackToolchain.Proofs.Disk.Path
import JackToolchain.Proofs.Results
import Mathlib.Data.List.Nodup

/-!
# Changes of file trees

What the operations that change a file tree leave as it is.

## Main Definitions

* `FileTree.KeepsDirectories` — every directory is still there.
* `FileTree.Grown` — directories have been added, and nothing else.

## Main Statements

* `FileTree.KeepsDirectories.resolve` — where directories are kept, paths lead where they led.
* `FileTree.write_eq_ok`, `FileTree.makeDirectory_eq_ok` — what a successful operation does.
* `FileTree.getLast?_of_resolve_join` — a file name that is joined to a path is the last one of its
  location.
-/

namespace JackToolchain.Disk

namespace FileTree

variable {tree between after : FileTree}

/-! ## Nodes -/

/-- What is put at a location stands there, unless it is the root. -/
theorem node?_put_self {location : Location} (inner : location ≠ []) (node : Node) :
    (tree.put location node).node? location = some node := by
  rw [node?_put, if_neg inner, if_pos rfl]

theorem node?_put_of_ne {location other : Location} (different : location ≠ other) (node : Node) :
    (tree.put location node).node? other = tree.node? other := by
  rw [node?_put, if_neg different]
  split
  · rename_i root
    rw [node?, if_pos root]
  · rfl

/-- Only a directory stands at the root. -/
theorem ne_nil_of_node? {location : Location} (other : tree.node? location ≠ some .directory) :
    location ≠ [] := by
  rintro rfl
  exact other rfl

/-! ## Kept directories -/

/-- **Kept directories.**  Every directory is still there, and paths begin where they began. -/
structure KeepsDirectories (tree after : FileTree) : Prop where
  current : after.current = tree.current
  directories : ∀ location, tree.node? location = some .directory →
    after.node? location = some .directory

namespace KeepsDirectories

theorem refl (tree : FileTree) : KeepsDirectories tree tree := ⟨rfl, fun _ => id⟩

theorem trans (first : KeepsDirectories tree between) (second : KeepsDirectories between after) :
    KeepsDirectories tree after :=
  ⟨second.current.trans first.current,
    fun location directory => second.directories location (first.directories location directory)⟩

/-- Whatever is put where no directory stands. -/
theorem put {location : Location} (other : tree.node? location ≠ some .directory) (node : Node) :
    KeepsDirectories tree (tree.put location node) := by
  refine ⟨rfl, fun outer directory => ?_⟩
  rw [node?_put_of_ne, directory]
  rintro rfl
  exact other directory

/-- A component that leads somewhere leads there still. -/
theorem walk (keeps : KeepsDirectories tree after) {location next : Location} {component : List Char}
    (walked : tree.walk location component = .ok next) : after.walk location component = .ok next := by
  unfold FileTree.walk at walked
  split at walked
  · exact absurd walked nofun
  · exact absurd walked nofun
  · rename_i directory
    rw [FileTree.walk, keeps.directories location directory]
    exact walked

/-- So do several. -/
theorem foldlM_walk (keeps : KeepsDirectories tree after) {components : List (List Char)}
    {location last : Location} (walked : components.foldlM tree.walk location = .ok last) :
    components.foldlM after.walk location = .ok last := by
  induction components generalizing location with
  | nil => exact walked
  | cons component rest ih =>
      obtain ⟨next, first, walked⟩ := foldlM_cons_eq_ok walked
      rw [foldlM_cons_of_ok (keeps.walk first)]
      exact ih walked

/-- **Paths** lead where they led… -/
theorem follow (keeps : KeepsDirectories tree after) {path : Path} {location : Location}
    (followed : tree.follow path = .ok location) : after.follow path = .ok location := by
  unfold FileTree.follow at followed ⊢
  split at followed
  · exact absurd followed nofun
  · exact keeps.foldlM_walk followed
  · rw [keeps.current]
    exact keeps.foldlM_walk followed

/-- …within the limits, too. -/
theorem resolve (keeps : KeepsDirectories tree after) {path : Path} {location : Location}
    (resolved : tree.resolve path = .ok location) : after.resolve path = .ok location := by
  obtain ⟨path', within, followed⟩ := both_ok resolved
  rw [FileTree.resolve, within]
  exact keeps.follow followed

end KeepsDirectories

/-! ## Operations -/

/-- A path within the limits is looked up as it is. -/
theorem admitted_eq_ok {path path' : Path} (within : admitted path = .ok path') : path' = path := by
  unfold admitted at within
  split at within
  · exact absurd within nofun
  · split at within
    · exact absurd within nofun
    · exact (Except.ok.inj within).symm

/-- **A file that is written** stands at the location of its path, where no directory stood. -/
theorem write_eq_ok {path : Path} {content : String} (written : tree.write path content = .ok after) :
    ∃ location, tree.resolve path = .ok location ∧ tree.node? location ≠ some .directory ∧
      after = tree.put location (.file content.toUTF8) := by
  obtain ⟨location, resolved, written⟩ := both_ok written
  split at written
  · exact absurd written nofun
  · rename_i other
    exact ⟨location, resolved, other, (Except.ok.inj written).symm⟩

/-- **A directory that is made** stands where nothing stood. -/
theorem makeDirectory_eq_ok {path : Path} (made : tree.makeDirectory path = .ok after) :
    ∃ location, tree.node? location = none ∧ after = tree.put location .directory := by
  obtain ⟨path', -, made⟩ := both_ok made
  obtain ⟨location, -, made⟩ := both_ok made
  split at made
  · exact absurd made nofun
  · rename_i free
    exact ⟨location, Option.not_isSome_iff_eq_none.mp free, (Except.ok.inj made).symm⟩

/-- What a file holds is read. -/
theorem read_of_file {path : Path} {location : Location} {content : String}
    (resolved : tree.resolve path = .ok location)
    (file : tree.node? location = some (.file content.toUTF8)) : tree.read path = .ok content := by
  have found : tree.find path = .ok (location, .file content.toUTF8) := by
    rw [find, resolved]
    dsimp only [bind, Except.bind]
    rw [file]
    rfl
  have decoded : String.fromUTF8? content.toUTF8 = some content := by
    rw [String.fromUTF8?, String.toUTF8_eq_toByteArray, dif_pos content.isValidUTF8]
    rfl
  rw [read, found]
  dsimp only [bind, Except.bind]
  rw [decoded]
  rfl

/-! ## Names -/

/-- A tree in which everything has a file name. -/
def HasFileNames (tree : FileTree) : Prop :=
  ∀ location ∈ tree.nodes.keys, ∀ name ∈ location, IsFileName name

/-- **The names in a directory** are different, and file names if all names are. -/
theorem names_of_list {path : Path} {names : List String} (listed : tree.list path = .ok names) :
    names.Nodup ∧ (tree.HasFileNames → ∀ name ∈ names, IsFileName name) := by
  obtain ⟨⟨location, node⟩, -, listed⟩ := both_ok listed
  cases node with
  | file content => exact absurd listed nofun
  | directory =>
      obtain rfl := Except.ok.inj listed
      have whole {inner : Location} {name : String}
          (found : name ∈ if inner.dropLast = location then inner.getLast? else none) :
          inner = location ++ [name] := by
        split at found
        · rename_i outer
          obtain ⟨front, rfl⟩ := List.getLast?_eq_some_iff.mp found
          rw [← outer, List.dropLast_concat]
        · exact absurd found nofun
      constructor
      · exact Std.TreeMap.nodup_keys.filterMap fun one other name isLast isLastToo =>
          (whole isLast).trans (whole isLastToo).symm
      · intro proper name member
        obtain ⟨inner, inTree, last⟩ := List.mem_filterMap.mp member
        split at last
        · exact proper inner inTree name (List.mem_of_mem_getLast? last)
        · exact absurd last nofun

/-! ## New directories -/

/-- **Grown trees.**  Where nothing stood there may be a directory; everything else is as it was. -/
structure Grown (tree after : FileTree) : Prop where
  current : after.current = tree.current
  nodes : ∀ location, after.node? location = tree.node? location ∨
    tree.node? location = none ∧ after.node? location = some .directory

namespace Grown

theorem refl (tree : FileTree) : Grown tree tree := ⟨rfl, fun _ => .inl rfl⟩

theorem trans (first : Grown tree between) (second : Grown between after) : Grown tree after := by
  refine ⟨second.current.trans first.current, fun location => ?_⟩
  rcases second.nodes location with same | ⟨none, directory⟩
  · rw [same]
    exact first.nodes location
  · rcases first.nodes location with same | ⟨-, other⟩
    · exact .inr ⟨same ▸ none, directory⟩
    · exact absurd (none.symm.trans other) nofun

/-- One directory more. -/
theorem makeDirectory {path : Path} (made : tree.makeDirectory path = .ok after) :
    Grown tree after := by
  obtain ⟨location, none, rfl⟩ := makeDirectory_eq_ok made
  refine ⟨rfl, fun other => ?_⟩
  by_cases same : location = other
  · subst same
    have inner : location ≠ [] := ne_nil_of_node? fun directory => absurd (none.symm.trans directory) nofun
    exact .inr ⟨none, node?_put_self inner _⟩
  · exact .inl (node?_put_of_ne same _)

end Grown

/-! ## Joined paths -/

/-- What is looked up last stands last. -/
theorem getLast?_of_walk {name : String} (isName : IsFileName name) {front : List (List Char)}
    {start location : Location}
    (walked : (front ++ [name.toList]).foldlM tree.walk start = .ok location) :
    location.getLast? = some name := by
  rw [List.foldlM_append] at walked
  obtain ⟨outer, -, walked⟩ := both_ok walked
  obtain ⟨last, stepped, same⟩ := foldlM_cons_eq_ok walked
  obtain rfl : last = location := Except.ok.inj same
  unfold walk at stepped
  split at stepped
  · exact absurd stepped nofun
  · exact absurd stepped nofun
  · rw [if_neg (Bool.eq_false_iff.mp isName.named), if_neg isName.inner, String.ofList_toList] at stepped
    dsimp only at stepped
    split at stepped
    · exact absurd stepped nofun
    · obtain rfl := Except.ok.inj stepped
      exact List.getLast?_concat

/-- **A file name** that is joined to a path is the last one of the location. -/
theorem getLast?_of_resolve_join {directory : Path} {name : String} (isName : IsFileName name)
    {location : Location} (resolved : tree.resolve (directory.join name) = .ok location) :
    location.getLast? = some name := by
  obtain ⟨path, within, followed⟩ := both_ok resolved
  obtain rfl := admitted_eq_ok within
  have ends := directory.endsIn_join name
  unfold follow at followed
  split at followed
  · exact absurd followed nofun
  · rename_i rest spelled
    rw [spelled] at ends
    have behind : EndsIn rest name := ends.tail fun same => isName.whole (same ▸ List.mem_cons_self)
    obtain ⟨front, cut⟩ := behind.split isName.whole
    rw [cut] at followed
    exact getLast?_of_walk isName followed
  · obtain ⟨front, cut⟩ := ends.split isName.whole
    rw [cut] at followed
    exact getLast?_of_walk isName followed

end FileTree

end JackToolchain.Disk
